import NexusWorkflow.Model.Context

/-!
# The store

`PostgresStateStore`: the tables, `executeTransaction` and the reads of `loadEngineState`.  A JSON
column gives back the JSON it was given.  A `SELECT` without `ORDER BY` gives its rows in any order,
which a `RowOrder` chooses.  The history, the timers and the definitions have tables of their own,
which no function of the model reads.
-/

namespace NexusWorkflow

/-! ## JSON -/

mutual

/-- `JSON.parse(JSON.stringify(v))`: what JSON has no number for becomes `null`, and so does an
`undefined` in an array; an object drops its undefined fields. -/
def Value.throughJson : Value → Value
  | .number .nan | .number (.infinity _) => .null
  | .array items => .array (itemsThroughJson items)
  | .object fields => .object (fieldsThroughJson fields)
  | v => v

def itemsThroughJson : List Value → List Value
  | [] => []
  | .undefined :: items => .null :: itemsThroughJson items
  | v :: items => v.throughJson :: itemsThroughJson items

def fieldsThroughJson : List (String × Value) → List (String × Value)
  | [] => []
  | (_, .undefined) :: fields => fieldsThroughJson fields
  | (name, v) :: fields => (name, v.throughJson) :: fieldsThroughJson fields

end

/-- A variable keeps its key: a `value` that is undefined is dropped, and reads as `undefined`
again. -/
def VariableValue.throughJson (v : VariableValue) : VariableValue :=
  { v with value := v.value.throughJson }

def Variables.throughJson (vars : Variables) : Variables where
  values := vars.values.map fun (name, v) => (name, v.throughJson)
  nodup := by
    have := vars.nodup
    rwa [List.map_map]

def VariableScope.throughJson (scope : VariableScope) : VariableScope :=
  { scope with vars := Variables.throughJson scope.vars }

/-! ## Rows -/

/-- A row of `instances`.  An instance that was read carries the `version` of its row; the engine
copies it with the other fields and never looks at it, so it is kept beside the instance here. -/
structure InstanceRow where
  data : ProcessInstance
  version : Nat

/-- The event that a subscription waits for; its id is `sub-${tokenId}`. -/
structure EventSubscription where
  instanceId : Nat
  tokenId : Nat
  type : WaitConditionType
  messageName : Option String := none
  signalName : Option String := none
  correlationValue : Option String := none
  isActive : Bool
  deriving DecidableEq

inductive UserTaskStatus where
  /-- The source's `open`, a Lean keyword. -/
  | unclaimed
  | claimed | completed | cancelled
  deriving DecidableEq

/-- A record of `user_tasks`.  The assignee is the user who has claimed the task; the one that a
diagram may name for a new task is left out. -/
structure UserTaskRecord where
  id : Nat
  instanceId : Nat
  tokenId : Nat
  elementId : String
  assignee : Option String := none
  status : UserTaskStatus
  claimedAt : Option Time := none
  completedAt : Option Time := none
  deriving DecidableEq

namespace InstanceRow

def id (row : InstanceRow) : Nat := row.data.id

end InstanceRow

/-- The primary key of `gateway_join_states`. -/
def GatewayJoinState.key (s : GatewayJoinState) : String × Nat :=
  (s.gatewayId, match s with
    | parallel s => s.instanceId
    | inclusive s => s.instanceId)

/-- The primary key of `compensation_records`. -/
def CompensationRecord.key (r : CompensationRecord) : Nat × Nat := (r.instanceId, r.tokenId)

structure Store where
  instances : KeyedMap InstanceRow.id
  tokens : KeyedMap Token.id
  scopes : KeyedMap VariableScope.id
  userTasks : KeyedMap UserTaskRecord.id
  subscriptions : KeyedMap EventSubscription.tokenId
  gatewayStates : KeyedMap GatewayJoinState.key
  compensationRecords : KeyedMap CompensationRecord.key

instance : EmptyCollection Store := ⟨⟨∅, ∅, ∅, ∅, ∅, ∅, ∅⟩⟩

/-! ## Writing -/

inductive StoreOperation where
  | createInstance (inst : ProcessInstance)
  | updateInstance (inst : ProcessInstance) (version : Option Nat)
  | saveTokens (tokens : List Token)
  | saveScope (scope : VariableScope)
  | createUserTask (task : UserTaskRecord)
  | updateUserTask (task : UserTaskRecord)
  | saveSubscription (subscription : EventSubscription)
  | deleteSubscription (tokenId : Nat)
  | saveGatewayState (state : GatewayJoinState)
  | deleteGatewayState (gatewayId : String) (instanceId : Nat)
  | saveCompensationRecord (record : CompensationRecord)
  | deleteCompensationRecord (instanceId tokenId : Nat)

inductive StoreError where
  | concurrentModification (instanceId : Nat)
  /-- A row with this primary key is there already. -/
  | uniqueViolation
  deriving DecidableEq

namespace Store

variable (store : Store)

/-- `INSERT`: the version of a new row is 1. -/
def createInstance (inst : ProcessInstance) : Except StoreError Store :=
  match store.instances.get? inst.id with
  | some _ => .error .uniqueViolation
  | none => .ok { store with instances := store.instances.set ⟨inst, 1⟩ }

/-- The update applies only to the expected version, and bumps it; without an expected version it
applies unconditionally.  If there is no row nothing happens. -/
def updateInstance (inst : ProcessInstance) (expected : Option Nat) : Except StoreError Store :=
  match store.instances.get? inst.id with
  | none => .ok store
  | some row =>
      if expected.all (· = row.version) then
        .ok { store with instances := store.instances.set ⟨inst, row.version + 1⟩ }
      else .error (.concurrentModification inst.id)

def saveTokens (tokens : List Token) : Store :=
  { store with tokens := tokens.foldl KeyedMap.set store.tokens }

def saveScope (scope : VariableScope) : Store :=
  { store with scopes := store.scopes.set scope.throughJson }

def createUserTask (task : UserTaskRecord) : Except StoreError Store :=
  match store.userTasks.get? task.id with
  | some _ => .error .uniqueViolation
  | none => .ok { store with userTasks := store.userTasks.set task }

def updateUserTask (task : UserTaskRecord) : Store :=
  match store.userTasks.get? task.id with
  | some _ => { store with userTasks := store.userTasks.set task }
  | none => store

/-- `ON CONFLICT DO NOTHING`. -/
def saveCompensationRecord (record : CompensationRecord) : Store :=
  match store.compensationRecords.get? record.key with
  | some _ => store
  | none => { store with compensationRecords := store.compensationRecords.set record }

def applyOp : StoreOperation → Except StoreError Store
  | .createInstance inst => store.createInstance inst
  | .updateInstance inst version => store.updateInstance inst version
  | .saveTokens tokens => .ok (store.saveTokens tokens)
  | .saveScope scope => .ok (store.saveScope scope)
  | .createUserTask task => store.createUserTask task
  | .updateUserTask task => .ok (store.updateUserTask task)
  | .saveSubscription subscription =>
      .ok { store with subscriptions := store.subscriptions.set subscription }
  | .deleteSubscription tokenId =>
      .ok { store with subscriptions := store.subscriptions.erase tokenId }
  | .saveGatewayState state => .ok { store with gatewayStates := store.gatewayStates.set state }
  | .deleteGatewayState gatewayId instanceId =>
      .ok { store with gatewayStates := store.gatewayStates.erase (gatewayId, instanceId) }
  | .saveCompensationRecord record => .ok (store.saveCompensationRecord record)
  | .deleteCompensationRecord instanceId tokenId =>
      .ok { store with
        compensationRecords := store.compensationRecords.erase (instanceId, tokenId) }

/-- One atomic transaction: an error in one operation undoes the others. -/
def executeTransaction (ops : List StoreOperation) : Except StoreError Store :=
  ops.foldlM applyOp store

end Store

/-! ## Reading -/

/-- The order in which rows come where the query does not say. -/
structure RowOrder where
  tokens : List Token → List Token
  gatewayStates : List GatewayJoinState → List GatewayJoinState
  compensationRecords : List CompensationRecord → List CompensationRecord
  perm_tokens : ∀ rows, (tokens rows).Perm rows
  perm_gatewayStates : ∀ rows, (gatewayStates rows).Perm rows
  perm_compensationRecords : ∀ rows, (compensationRecords rows).Perm rows

/-- Rows in the order in which they were first inserted. -/
def RowOrder.inserted : RowOrder where
  tokens rows := rows
  gatewayStates rows := rows
  compensationRecords rows := rows
  perm_tokens _ := .refl _
  perm_gatewayStates _ := .refl _
  perm_compensationRecords _ := .refl _

/-- The fields that `reviveToken` lists; `loopState` is not among them. -/
def reviveToken (raw : Token) : Token where
  id := raw.id
  instanceId := raw.instanceId
  elementId := raw.elementId
  elementType := raw.elementType
  status := raw.status
  scopeId := raw.scopeId
  createdAt := raw.createdAt
  updatedAt := raw.updatedAt
  arrivedViaFlowId := raw.arrivedViaFlowId
  parentTokenId := raw.parentTokenId
  subProcessInstanceId := raw.subProcessInstanceId
  waitingFor := raw.waitingFor

/-- The fields that `reviveInstance` lists. -/
def reviveInstance (raw : ProcessInstance) : ProcessInstance where
  id := raw.id
  definitionId := raw.definitionId
  definitionVersion := raw.definitionVersion
  status := raw.status
  rootScopeId := raw.rootScopeId
  startedAt := raw.startedAt
  correlationKey := raw.correlationKey
  businessKey := raw.businessKey
  errorInfo := raw.errorInfo
  completedAt := raw.completedAt

namespace Store

variable (store : Store) (order : RowOrder)

/-- The instance, and the version of its row. -/
def getInstance (id : Nat) : Option (ProcessInstance × Nat) :=
  (store.instances.get? id).map fun row => (reviveInstance row.data, row.version)

def getAllTokens (instanceId : Nat) : List Token :=
  (order.tokens (store.tokens.values.filter (·.instanceId = instanceId))).map reviveToken

def listGatewayStates (instanceId : Nat) : List GatewayJoinState :=
  order.gatewayStates (store.gatewayStates.values.filter (·.key.2 = instanceId))

def getScope (id : Nat) : Option VariableScope := store.scopes.get? id

/-- `ORDER BY completed_at ASC`. -/
def listCompensationRecords (instanceId : Nat) : List CompensationRecord :=
  (order.compensationRecords (store.compensationRecords.values.filter
    (·.instanceId = instanceId))).insertionSort fun a b => a.completedAt ≤ b.completedAt

/-- The filters of `findSubscriptions` that the routes use. -/
structure SubscriptionFilter where
  type : WaitConditionType
  messageName : Option String := none
  signalName : Option String := none
  correlationValue : Option String := none

def findSubscriptions (filter : SubscriptionFilter) : List EventSubscription :=
  store.subscriptions.values.filter fun s =>
    s.isActive ∧ s.type = filter.type ∧
      (filter.messageName.all fun name => s.messageName = some name) ∧
      (filter.signalName.all fun name => s.signalName = some name) ∧
      (filter.correlationValue.all fun value => s.correlationValue = some value)

end Store

end NexusWorkflow
