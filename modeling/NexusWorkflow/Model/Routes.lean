import NexusWorkflow.Model.Persist

/-!
# Requests about user tasks

The records that a request closes along with its step (`http/tasks.ts`, `force.ts`, `instances.ts`),
and the cycles that the routes, the workers and the timers run.
-/

namespace NexusWorkflow

/-! ## Records -/

namespace UserTaskRecord

variable (task : UserTaskRecord)

/-- `{ ...task, status: 'completed', completedAt: new Date() }`. -/
def completed (now : Time) : UserTaskRecord :=
  { task with status := .completed, completedAt := some now }

/-- `{ ...task, status: 'cancelled', completedAt: new Date() }`. -/
def cancelled (now : Time) : UserTaskRecord :=
  { task with status := .cancelled, completedAt := some now }

/-- `POST /tasks/:id/claim`; the status of the record is not looked at. -/
def claimed (claimedBy : String) (now : Time) : UserTaskRecord :=
  { task with status := .claimed, assignee := some claimedBy, claimedAt := some now }

/-- `POST /tasks/:id/release`; the status of the record is not looked at. -/
def released : UserTaskRecord :=
  { task with status := .unclaimed, assignee := none, claimedAt := none }

/-- Open or claimed. -/
def Outstanding : Prop := task.status = .unclaimed ∨ task.status = .claimed

instance : Decidable task.Outstanding := inferInstanceAs (Decidable (_ ∨ _))

end UserTaskRecord

/-- `queryUserTasks` for the first 1000 records of an instance.  They come in the order of their
creation; `order` stands for it. -/
def Store.queryUserTasks (store : Store) (order : List UserTaskRecord → List UserTaskRecord)
    (instanceId : Nat) (status : Option UserTaskStatus) : List UserTaskRecord :=
  (order (store.userTasks.values.filter fun task =>
    task.instanceId = instanceId ∧ status.all (task.status = ·))).take 1000

/-! ## What a request closes -/

/-- Most requests close no record. -/
def closesNothing : EngineState → Reading Store (List UserTaskRecord) := fun _ => pure []

/-- `POST /tasks/:id/complete` closes the record that it is about. -/
def closesTask (task : UserTaskRecord) (now : Time) :
    EngineState → Reading Store (List UserTaskRecord) :=
  fun _ => pure [task.completed now]

/-- `POST /instances/:id/force` closes the record of the token, if it finds one. -/
def closesForced (order : List UserTaskRecord → List UserTaskRecord) (tokenId : Nat) (now : Time) :
    EngineState → Reading Store (List UserTaskRecord) := fun state =>
  Reading.ask fun store =>
    (((store.queryUserTasks order state.inst.id none).find? fun task =>
      task.tokenId = tokenId ∧ task.Outstanding).map (·.completed now)).toList

/-- `DELETE /instances/:id` closes the open records of the instance. -/
def closesOpen (order : List UserTaskRecord → List UserTaskRecord) (now : Time) :
    EngineState → Reading Store (List UserTaskRecord) := fun state =>
  Reading.ask fun store =>
    (store.queryUserTasks order state.inst.id (some .unclaimed)).map (·.cancelled now)

/-! ## Routes -/

/-- The token waits for a user. -/
def Token.WaitsForUser (t : Token) : Prop := t.status = .waiting ∧ t.waitsFor .userTask = true

instance (t : Token) : Decidable t.WaitsForUser := inferInstanceAs (Decidable (_ ∧ _))

/-- Who can run the cycle on a loaded state. -/
inductive Cycle.Routed (store : Store) (state : EngineState) (c : Cycle) : Prop
  /-- `POST /messages`, `/signals`, `/instances/:id/commands`, `/suspend`, `/resume`, and the forced
  steps that are not about a user task. -/
  | command (hcaller : c.caller = .request closesNothing)
  | completeTask {task : UserTaskRecord} (htask : task ∈ store.userTasks.values)
      (hopen : task.status ≠ .completed ∧ task.status ≠ .cancelled)
      (hinst : state.inst.id = task.instanceId) {completedBy : String} {vars : Option Variables}
      (hcommand : c.command = .completeUserTask task.tokenId completedBy vars)
      {now : Time} (hcaller : c.caller = .request (closesTask task now))
  | forceTask {tokenId : Nat} {order : List UserTaskRecord → List UserTaskRecord}
      (horder : ∀ rows, (order rows).Perm rows)
      (hfits : ∃ t ∈ state.tokens, t.id = tokenId ∧ t.WaitsForUser)
      {completedBy : String} {vars : Option Variables}
      (hcommand : c.command = .completeUserTask tokenId completedBy vars)
      {now : Time} (hcaller : c.caller = .request (closesForced order tokenId now))
  | delete {order : List UserTaskRecord → List UserTaskRecord}
      (horder : ∀ rows, (order rows).Perm rows) (hactive : state.inst.status.terminal = false)
      (hcommand : c.command = .cancelInstance) {now : Time}
      (hcaller : c.caller = .request (closesOpen order now))
  | worker {tokenId : Nat} (hcommand : (∃ vars, c.command = .completeServiceTask tokenId vars) ∨
        ∃ code message, c.command = .failServiceTask tokenId code message)
      (hcaller : c.caller = .worker)
  | timer {tokenId : Nat} (hcommand : c.command = .fireTimer tokenId) (hcaller : c.caller = .timer)

end NexusWorkflow
