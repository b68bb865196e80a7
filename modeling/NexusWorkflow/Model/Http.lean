import NexusWorkflow.Model.Routes

/-!
# HTTP requests

The routes that write to the tables of the engine (`http/tasks.ts`, `events.ts`, `instances.ts` and
`admin.ts`), each as it runs when no other one comes between its queries, and which of them the keys
of a tenant may call (`auth/keyPermissions.ts`).
-/

namespace NexusWorkflow

/-! ## Requests -/

inductive HttpRequest where
  | startInstance (definitionId : String) (vars : Option Variables)
      (correlationKey businessKey : Option String)
  | command (instanceId : Nat) (command : EngineCommand)
  | deleteInstance (instanceId : Nat)
  | suspendInstance (instanceId : Nat)
  | resumeInstance (instanceId : Nat)
  | restartInstance (instanceId : Nat)
  | completeTask (taskId : Nat) (completedBy : String) (outputVariables : Option Variables)
  | claimTask (taskId : Nat) (claimedBy : String)
  | releaseTask (taskId : Nat)
  | deliverMessage (messageName : String) (correlationValue : Option String)
      (vars : Option Variables)
  | broadcastSignal (signalName : String) (vars : Option Variables)
  /-- A request that writes none of the tables of the model: it reads, or it deploys a
  definition. -/
  | other (method : String) (path : List String)

namespace HttpRequest

def method : HttpRequest → String
  | deleteInstance _ => "DELETE"
  | other method _ => method
  | _ => "POST"

/-- The path, split at its slashes. -/
def path : HttpRequest → List String
  | startInstance definitionId _ _ _ => ["definitions", definitionId, "instances"]
  | command id _ => ["instances", toString id, "commands"]
  | deleteInstance id => ["instances", toString id]
  | suspendInstance id => ["instances", toString id, "suspend"]
  | resumeInstance id => ["instances", toString id, "resume"]
  | restartInstance id => ["instances", toString id, "restart"]
  | completeTask id _ _ => ["tasks", toString id, "complete"]
  | claimTask id _ => ["tasks", toString id, "claim"]
  | releaseTask id => ["tasks", toString id, "release"]
  | deliverMessage _ _ _ => ["messages"]
  | broadcastSignal _ _ => ["signals"]
  | other _ path => path

end HttpRequest

/-! ## Permissions -/

inductive KeyRole where
  | service | tenantManager
  deriving DecidableEq

/-- One segment of the path in a rule. -/
inductive Segment where
  | oneOf (names : List String)
  /-- `[^/]+`. -/
  | any

def Segment.fits : Segment → String → Bool
  | .oneOf names, name => name ∈ names
  | .any, name => name ≠ ""

structure Rule where
  method : String
  path : List Segment

namespace Rule

def lit (name : String) : Segment := .oneOf [name]

def fits (rule : Rule) (path : List String) : Bool :=
  rule.path.length = path.length && (rule.path.zip path).all fun (segment, name) =>
    segment.fits name

/-- `SERVICE`. -/
def service : List Rule :=
  [⟨"GET", [lit "definitions"]⟩, ⟨"POST", [lit "definitions"]⟩, ⟨"GET", [lit "definitions", .any]⟩,
    ⟨"GET", [lit "definitions", .any, lit "xml"]⟩,
    ⟨"POST", [lit "definitions", .any, lit "instances"]⟩, ⟨"GET", [lit "instances"]⟩,
    ⟨"GET", [lit "instances", .any]⟩,
    ⟨"GET", [lit "instances", .any, .oneOf ["events", "history"]]⟩,
    ⟨"POST", [lit "instances", .any, lit "commands"]⟩, ⟨"GET", [lit "tasks"]⟩,
    ⟨"GET", [lit "tasks", .any]⟩,
    ⟨"POST", [lit "tasks", .any, .oneOf ["complete", "claim", "release"]]⟩,
    ⟨"POST", [.oneOf ["messages", "signals"]]⟩]

end Rule

/-- Whether a key with this role may make this request; the type of a command is checked
separately. -/
def keyMayCall (role : KeyRole) (method : String) (path : List String) : Bool :=
  role = .tenantManager ||
    Rule.service.any fun rule => rule.method = method.toUpper && rule.fits path

/-- The `type` of a command. -/
def EngineCommand.type : EngineCommand → String
  | .startProcess _ _ _ => "StartProcess"
  | .completeServiceTask _ _ => "CompleteServiceTask"
  | .failServiceTask _ _ _ => "FailServiceTask"
  | .completeUserTask _ _ _ => "CompleteUserTask"
  | .fireTimer _ => "FireTimer"
  | .deliverMessage _ _ => "DeliverMessage"
  | .broadcastSignal _ _ => "BroadcastSignal"
  | .suspendInstance => "SuspendInstance"
  | .resumeInstance => "ResumeInstance"
  | .cancelInstance => "CancelInstance"

/-- `ADMINISTRATIVE_COMMANDS`. -/
def administrativeCommands : List String := ["SuspendInstance", "ResumeInstance", "CancelInstance"]

def keyMayRunCommand (role : KeyRole) (commandType : String) : Bool :=
  role = .tenantManager || commandType ∉ administrativeCommands

/-- The request passes the checks on a key with this role. -/
def KeyRole.mayMake (role : KeyRole) (request : HttpRequest) : Bool :=
  keyMayCall role request.method request.path &&
    match request with
    | .command _ command => keyMayRunCommand role command.type
    | _ => true

/-! ## Cycles of a request -/

/-- What a cycle of a request gets from outside. -/
structure Circumstances where
  fuel : Nat
  options : ExecuteOptions
  order : RowOrder
  firstTaskId : Nat
  now : Time

/-- What a request finds: the definitions, and the circumstances of its cycles, one after the
other. -/
structure Surroundings where
  definitions : String → Nat → Option ProcessDefinition
  /-- `getDefinition(id)`: the latest version. -/
  latest : String → Option ProcessDefinition
  /-- The order of the rows that `findSubscriptions` selects. -/
  subscriptions : List EventSubscription → List EventSubscription
  perm_subscriptions : ∀ rows, (subscriptions rows).Perm rows
  /-- The order of the records that `queryUserTasks` selects. -/
  userTasks : List UserTaskRecord → List UserTaskRecord
  perm_userTasks : ∀ rows, (userTasks rows).Perm rows
  circumstances : Nat → Circumstances

/-- A cycle of a request. -/
def Circumstances.cycle (k : Circumstances)
    (closes : EngineState → Reading Store (List UserTaskRecord)) (admits : EngineState → Bool)
    (command : EngineCommand) (goesOn : command.goesOn) : Cycle where
  caller := .request closes
  admits
  command
  goesOn
  fuel := k.fuel
  options := k.options
  order := k.order
  firstTaskId := k.firstTaskId

/-- How a cycle ends. -/
inductive CycleOutcome where
  | notFound
  | notAdmitted
  | noDefinition
  | failed (error : EngineError)
  | refused (error : StoreError)
  | saved (result : EngineResult) (store : Store)

/-- A cycle that nothing comes between. -/
def Cycle.attempt (definitions : String → Nat → Option ProcessDefinition) (c : Cycle)
    (instanceId : Nat) (store : Store) : CycleOutcome :=
  match (loadEngineState c.order instanceId).alone store with
  | none => .notFound
  | some (state, version) =>
      if c.admits state then
        match definitions state.inst.definitionId state.inst.definitionVersion with
        | none => .noDefinition
        | some d =>
            match execute d c.fuel c.command (some state) c.options with
            | .error e => .failed e
            | .ok result =>
                match store.executeTransaction
                    ((c.caller.storeOps d c.firstTaskId state version result).alone store) with
                | .error e => .refused e
                | .ok store' => .saved result store'
      else .notAdmitted

/-! ## Replies -/

structure Reply where
  status : Nat
  /-- What `POST /signals` reports as delivered. -/
  delivered : Nat := 0

/-- A `RuntimeError` is answered with 422, and everything else is thrown on. -/
def EngineError.httpStatus : EngineError → Nat
  | .runtimeError _ _ => 422
  | _ => 500

/-- `conflictAwareErrorHandler`. -/
def StoreError.httpStatus : StoreError → Nat
  | .concurrentModification _ => 409
  | .uniqueViolation => 500

/-- The reply, and the store then.  `missing` is the status when the instance is not there, and
`denied` when the route does not admit its state. -/
def CycleOutcome.answer (missing denied : Nat) (store : Store) : CycleOutcome → Reply × Store
  | notFound => ({ status := missing }, store)
  | notAdmitted => ({ status := denied }, store)
  | noDefinition => ({ status := 500 }, store)
  | failed e => ({ status := e.httpStatus }, store)
  | refused e => ({ status := e.httpStatus }, store)
  | saved _ store' => ({ status := 200 }, store')

/-! ## Routes -/

variable (s : Surroundings) (store : Store)

/-- `StartProcess`, and the transaction for the new instance. -/
def startWith (k : Circumstances) (d : ProcessDefinition) (vars : Option Variables)
    (correlationKey businessKey : Option String) : Reply × Store :=
  match execute d k.fuel (.startProcess vars correlationKey businessKey) none k.options with
  | .error e => ({ status := e.httpStatus }, store)
  | .ok result =>
      match store.executeTransaction (computeStoreOps true none none result.newState ++
          buildUserTaskCreationOps k.firstTaskId result.events d) with
      | .error e => ({ status := e.httpStatus }, store)
      | .ok store' => ({ status := 201 }, store')

/-- `POST /definitions/:definitionId/instances`. -/
def postInstances (definitionId : String) (vars : Option Variables)
    (correlationKey businessKey : Option String) : Reply × Store :=
  match s.latest definitionId with
  | none => ({ status := 404 }, store)
  | some d =>
      if d.isDeployable then
        startWith store (s.circumstances 0) d vars correlationKey businessKey
      else ({ status := 422 }, store)

/-- `POST /instances/:id/commands`; `StartProcess` is not one of the command types. -/
def postCommands (instanceId : Nat) (command : EngineCommand) : Reply × Store :=
  if h : command.goesOn then
    (((s.circumstances 0).cycle closesNothing (fun _ => true) command h).attempt s.definitions
      instanceId store).answer 404 500 store
  else ({ status := 400 }, store)

/-- `DELETE /instances/:id`: a finished instance is left alone. -/
def deleteInstance (instanceId : Nat) : Reply × Store :=
  (((s.circumstances 0).cycle (closesOpen s.userTasks (s.circumstances 0).now)
    (fun state => !state.inst.status.terminal) .cancelInstance rfl).attempt s.definitions
      instanceId store).answer 404 200 store

/-- `POST /instances/:id/suspend`. -/
def postSuspend (instanceId : Nat) : Reply × Store :=
  (((s.circumstances 0).cycle closesNothing (fun state => state.inst.status = .active)
    .suspendInstance rfl).attempt s.definitions instanceId store).answer 404 422 store

/-- `POST /instances/:id/resume`. -/
def postResume (instanceId : Nat) : Reply × Store :=
  (((s.circumstances 0).cycle closesNothing (fun state => state.inst.status = .suspended)
    .resumeInstance rfl).attempt s.definitions instanceId store).answer 404 422 store

/-- `POST /instances/:id/restart`: a new instance, with the variables of the old one's root
scope. -/
def postRestart (instanceId : Nat) : Reply × Store :=
  match (loadEngineState (s.circumstances 0).order instanceId).alone store with
  | none => ({ status := 404 }, store)
  | some (state, _) =>
      if state.inst.status = .terminated then
        match s.definitions state.inst.definitionId state.inst.definitionVersion with
        | none => ({ status := 500 }, store)
        | some d =>
            let vars := ((store.getScope state.inst.rootScopeId).map (·.vars)).filter
              (!·.values.isEmpty)
            startWith store (s.circumstances 0) d vars state.inst.correlationKey
              state.inst.businessKey
      else ({ status := 422 }, store)

/-- `POST /tasks/:id/complete`. -/
def postComplete (taskId : Nat) (completedBy : String) (outputVariables : Option Variables) :
    Reply × Store :=
  match store.userTasks.get? taskId with
  | none => ({ status := 404 }, store)
  | some task =>
      if task.status = .completed ∨ task.status = .cancelled then ({ status := 422 }, store)
      else
        (((s.circumstances 0).cycle (closesTask task (s.circumstances 0).now) (fun _ => true)
          (.completeUserTask task.tokenId completedBy outputVariables) rfl).attempt s.definitions
            task.instanceId store).answer 500 500 store

/-- One record is written: `POST /tasks/:id/claim` and `POST /tasks/:id/release`. -/
def rewriteTask (taskId : Nat) (change : UserTaskRecord → UserTaskRecord) : Reply × Store :=
  match store.userTasks.get? taskId with
  | none => ({ status := 404 }, store)
  | some task => ({ status := 200 }, store.updateUserTask (change task))

/-- `POST /messages`: the message goes to the instance of the first subscription that is found. -/
def postMessages (messageName : String) (correlationValue : Option String)
    (vars : Option Variables) : Reply × Store :=
  match s.subscriptions (store.findSubscriptions
      { type := .message, messageName := some messageName, correlationValue }) with
  | [] => ({ status := 404 }, store)
  | sub :: _ =>
      (((s.circumstances 0).cycle closesNothing (fun _ => true)
        (.deliverMessage messageName vars) rfl).attempt s.definitions sub.instanceId
          store).answer 500 500 store

/-- The loop of `POST /signals`: one cycle for each subscription.  An instance that is not there,
has no definition or throws an error is passed over; a transaction that fails ends the request. -/
def broadcast (signalName : String) (vars : Option Variables) :
    List EventSubscription → Nat → Nat → Store → Reply × Store
  | [], _, delivered, store => ({ status := 200, delivered }, store)
  | sub :: subs, n, delivered, store =>
      match ((s.circumstances n).cycle closesNothing (fun _ => true)
          (.broadcastSignal signalName vars) rfl).attempt s.definitions sub.instanceId store with
      | .saved _ store' => broadcast signalName vars subs (n + 1) (delivered + 1) store'
      | .refused e => ({ status := e.httpStatus }, store)
      | _ => broadcast signalName vars subs (n + 1) delivered store

/-- `POST /signals`. -/
def postSignals (signalName : String) (vars : Option Variables) : Reply × Store :=
  broadcast s signalName vars
    (s.subscriptions (store.findSubscriptions { type := .signal, signalName := some signalName }))
    0 0 store

/-- A request that passes the checks on who makes it. -/
def HttpRequest.handle : HttpRequest → Reply × Store
  | startInstance definitionId vars correlationKey businessKey =>
      postInstances s store definitionId vars correlationKey businessKey
  | command instanceId engineCommand => postCommands s store instanceId engineCommand
  | deleteInstance instanceId => NexusWorkflow.deleteInstance s store instanceId
  | suspendInstance instanceId => postSuspend s store instanceId
  | resumeInstance instanceId => postResume s store instanceId
  | restartInstance instanceId => postRestart s store instanceId
  | completeTask taskId completedBy outputVariables =>
      postComplete s store taskId completedBy outputVariables
  | claimTask taskId claimedBy =>
      rewriteTask store taskId (·.claimed claimedBy (s.circumstances 0).now)
  | releaseTask taskId => rewriteTask store taskId (·.released)
  | deliverMessage messageName correlationValue vars =>
      postMessages s store messageName correlationValue vars
  | broadcastSignal signalName vars => postSignals s store signalName vars
  | other _ _ => ({ status := 200 }, store)

end NexusWorkflow
