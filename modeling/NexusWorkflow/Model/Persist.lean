import NexusWorkflow.Lib.Optimistic
import NexusWorkflow.Model.Engine
import NexusWorkflow.Model.Store

/-!
# Persistence

`http/engineHelpers.ts`, and the helpers of the same names in `TaskWorker.ts` and
`TimerCoordinator.ts`: an engine state is loaded query by query, and the difference between two
states is written as store operations.  A `Cycle` is what a request, a worker or a timer does with
them.
-/

namespace NexusWorkflow

/-! ## Loading -/

/-- `new Set(ids)`, in its order of iteration. -/
def distinct (ids : List Nat) : List Nat := (KeyedMap.ofList ids : KeyedMap (id : Nat → Nat)).values

/-- The scopes of the given ids, those apart that are not there; one query for each. -/
def loadScopes : List Nat → Reading Store (List VariableScope)
  | [] => pure []
  | id :: ids => do
      let scope ← Reading.ask fun store => store.getScope id
      let scopes ← loadScopes ids
      pure (scope.toList ++ scopes)

/-- What is loaded after the instance. -/
def loadRest (order : RowOrder) (inst : ProcessInstance) : Reading Store EngineState := do
  let tokens ← Reading.ask fun store => store.getAllTokens order inst.id
  let gatewayJoinStates ← Reading.ask fun store => store.listGatewayStates order inst.id
  let scopes ← loadScopes (distinct (inst.rootScopeId :: tokens.map (·.scopeId)))
  let compensationRecords ← Reading.ask fun store => store.listCompensationRecords order inst.id
  pure { inst, tokens, scopes, gatewayJoinStates, compensationRecords }

/-- The state of an instance, and the version of its row. -/
def loadEngineState (order : RowOrder) (instanceId : Nat) :
    Reading Store (Option (EngineState × Nat)) := do
  match ← Reading.ask fun store => store.getInstance instanceId with
  | none => pure none
  | some (inst, version) =>
      let state ← loadRest order inst
      pure (some (state, version))

/-! ## Saving -/

/-- The join states that are left, and the removal of those that are gone. -/
def gatewayOps (oldState : Option EngineState) (newState : EngineState) : List StoreOperation :=
  let newKeys := newState.gatewayJoinStates.map (·.key)
  newState.gatewayJoinStates.map .saveGatewayState ++
    (((oldState.map (·.gatewayJoinStates)).getD []).filter fun gs => gs.key ∉ newKeys).map fun gs =>
      .deleteGatewayState gs.key.1 gs.key.2

/-- What all three of the diffs write. -/
def stateOps (instanceOp : StoreOperation) (oldState : Option EngineState)
    (newState : EngineState) : List StoreOperation :=
  instanceOp :: .saveTokens newState.tokens ::
    (newState.scopes.map .saveScope ++ gatewayOps oldState newState)

/-- The type of event that a waiting token has a subscription for. -/
def Token.subscribedTo (t : Token) : Option WaitConditionType :=
  if t.status = .waiting then
    (t.waitingFor.map (·.type)).filter fun type => type = .message ∨ type = .signal
  else none

/-- The subscription of a token that waits for an event of the given type. -/
def Token.subscription (t : Token) (type : WaitConditionType) : EventSubscription where
  instanceId := t.instanceId
  tokenId := t.id
  type := type
  messageName := if type = .message then truthy t.messageName else none
  signalName := if type = .signal then truthy t.signalName else none
  isActive := true

/-- A token of this id waits, by the list. -/
def isWaiting (tokens : List Token) (id : Nat) : Bool :=
  ((KeyedMap.ofList tokens : KeyedMap Token.id).get? id).any (·.status = .waiting)

/-- A subscription for every token that has begun to wait for an event, and the removal of those of
tokens that wait no longer. -/
def subscriptionOps (oldTokens newTokens : List Token) : List StoreOperation :=
  newTokens.filterMap (fun token =>
      if isWaiting oldTokens token.id then none
      else token.subscribedTo.map fun type => .saveSubscription (token.subscription type)) ++
    (oldTokens.filter fun token => token.subscribedTo.isSome ∧ ¬ isWaiting newTokens token.id).map
      fun token => .deleteSubscription token.id

def compensationOps (oldRecords newRecords : List CompensationRecord) : List StoreOperation :=
  let oldKeys := oldRecords.map (·.tokenId)
  let newKeys := newRecords.map (·.tokenId)
  (newRecords.filter (·.tokenId ∉ oldKeys)).map .saveCompensationRecord ++
    (oldRecords.filter (·.tokenId ∉ newKeys)).map fun r =>
      .deleteCompensationRecord r.instanceId r.tokenId

/-- `version` is the one that the instance carries, if it was read from the store. -/
def computeStoreOps (isNew : Bool) (oldState : Option EngineState) (version : Option Nat)
    (newState : EngineState) : List StoreOperation :=
  stateOps (if isNew then .createInstance newState.inst else .updateInstance newState.inst version)
      oldState newState ++
    (subscriptionOps ((oldState.map (·.tokens)).getD []) newState.tokens ++
      compensationOps ((oldState.map (·.compensationRecords)).getD []) newState.compensationRecords)

/-- The user task that an event reports as started, if the element is found among those of the top
level. -/
def ExecutionEvent.startedUserTask (d : ProcessDefinition) : ExecutionEvent → Option UserTaskRecord
  | .tokenWaiting instanceId tokenId elementId waitingFor =>
      if waitingFor.type = .userTask then
        match d.elements.find? (·.id = elementId) with
        | some (.userTask _) =>
            some { id := 0, instanceId, tokenId, elementId, status := .unclaimed }
        | _ => none
      else none
  | _ => none

/-- The records get new ids, which count up from the first one. -/
def buildUserTaskCreationOps (firstTaskId : Nat) (events : List ExecutionEvent)
    (d : ProcessDefinition) : List StoreOperation :=
  (events.filterMap (·.startedUserTask d)).zipIdx firstTaskId |>.map fun (task, id) =>
    .createUserTask { task with id }

namespace TaskWorker

def buildStoreOps (oldState : EngineState) (version : Option Nat) (newState : EngineState) :
    List StoreOperation :=
  stateOps (.updateInstance newState.inst version) (some oldState) newState

end TaskWorker

namespace TimerCoordinator

def buildStoreOps (oldState : EngineState) (version : Option Nat) (newState : EngineState) :
    List StoreOperation :=
  stateOps (.updateInstance newState.inst version) (some oldState) newState

end TimerCoordinator

/-! ## Cycles -/

/-- Who runs a cycle.  A request may close task records along with its step: the one that it
completes, or those that it finds open when it deletes the instance. -/
inductive Caller where
  | request (closes : EngineState → Reading Store (List UserTaskRecord))
  | worker
  | timer

/-- What the caller writes. -/
def Caller.storeOps (d : ProcessDefinition) (firstTaskId : Nat) (state : EngineState)
    (version : Nat) (result : EngineResult) : Caller → Reading Store (List StoreOperation)
  | .request closes => do
      let closed ← closes state
      pure (computeStoreOps false (some state) (some version) result.newState ++
        (buildUserTaskCreationOps firstTaskId result.events d ++ closed.map .updateUserTask))
  | .worker => pure (TaskWorker.buildStoreOps state (some version) result.newState)
  | .timer => pure (TimerCoordinator.buildStoreOps state (some version) result.newState)

/-- The command of a cycle on an instance that is there: every one but `StartProcess`. -/
def EngineCommand.goesOn : EngineCommand → Bool
  | .startProcess _ _ _ => false
  | _ => true

namespace EngineCommand

theorem completeUserTask_goesOn (tokenId : Nat) (completedBy : String) (vars : Option Variables) :
    (completeUserTask tokenId completedBy vars).goesOn = true := rfl

theorem deliverMessage_goesOn (name : String) (vars : Option Variables) :
    (deliverMessage name vars).goesOn = true := rfl

theorem broadcastSignal_goesOn (name : String) (vars : Option Variables) :
    (broadcastSignal name vars).goesOn = true := rfl

theorem cancelInstance_goesOn : cancelInstance.goesOn = true := rfl

end EngineCommand

structure Cycle where
  caller : Caller
  /-- What the caller checks on the loaded state before it goes on. -/
  admits : EngineState → Bool
  command : EngineCommand
  goesOn : command.goesOn
  fuel : Nat
  options : ExecuteOptions
  order : RowOrder
  firstTaskId : Nat

variable (definitions : String → Nat → Option ProcessDefinition)

namespace Cycle

variable (c : Cycle)

/-- The operations of a cycle on a loaded state: none if the caller gives up. -/
def storeOps (state : EngineState) (version : Nat) : Reading Store (Option (List StoreOperation)) :=
  if c.admits state then
    match definitions state.inst.definitionId state.inst.definitionVersion with
    | none => pure none
    | some d =>
        match execute d c.fuel c.command (some state) c.options with
        | .error _ => pure none
        | .ok result => do
            let ops ← c.caller.storeOps d c.firstTaskId state version result
            pure (some ops)
  else pure none

/-- The operations of a cycle on the instance of the given id. -/
def plan (instanceId : Nat) : Reading Store (Option (List StoreOperation)) := do
  match ← loadEngineState c.order instanceId with
  | none => pure none
  | some (state, version) => c.storeOps definitions state version

/-- Load, execute, and one transaction. -/
def program (instanceId : Nat) : Program Store :=
  (c.plan definitions instanceId).bind fun ops =>
    .done (ops.map fun ops store => (store.executeTransaction ops).toOption)

end Cycle

end NexusWorkflow
