import NexusWorkflow.Model.Definition

/-!
# The execution context

`class ExecutionContext`: the mutable state of one `execute` call.  A method that changes the
context returns the changed one.  `generateId` counts up from `nextId`; `now` reads the clock, which
may show anything at each reading.
-/

namespace NexusWorkflow

/-- The state handed to `execute` and returned by it. -/
structure EngineState where
  inst : ProcessInstance
  tokens : List Token
  scopes : List VariableScope
  gatewayJoinStates : List GatewayJoinState
  compensationRecords : List CompensationRecord

structure ExecuteOptions where
  /-- The first id that `generateId` hands out. -/
  firstId : Nat
  /-- What the clock shows at its readings, one after the other. -/
  now : Nat → Time
  /-- `expressionEvaluator.evaluate(expression, { variables })`. -/
  evaluate : String → Variables → Except EngineError Value

structure ExecutionContext where
  inst : Option ProcessInstance
  tokenMap : KeyedMap Token.id
  scopeMap : KeyedMap VariableScope.id
  joinStateMap : KeyedMap GatewayJoinState.gatewayId
  compensationList : List CompensationRecord
  events : List ExecutionEvent
  pendingQueue : List Token
  nextId : Nat
  readings : Nat
  options : ExecuteOptions

namespace ExecutionContext

/-- `new ExecutionContext(state, options)`. -/
def create (state : Option EngineState) (options : ExecuteOptions) : ExecutionContext where
  inst := state.map (·.inst)
  tokenMap := KeyedMap.ofList ((state.map (·.tokens)).getD [])
  scopeMap := KeyedMap.ofList ((state.map (·.scopes)).getD [])
  joinStateMap := KeyedMap.ofList ((state.map (·.gatewayJoinStates)).getD [])
  compensationList := (state.map (·.compensationRecords)).getD []
  events := []
  pendingQueue := []
  nextId := options.firstId
  readings := 0
  options := options

variable (ctx : ExecutionContext)

def now : Time × ExecutionContext :=
  (ctx.options.now ctx.readings, { ctx with readings := ctx.readings + 1 })

def newId : Nat × ExecutionContext := (ctx.nextId, { ctx with nextId := ctx.nextId + 1 })

def emit (event : ExecutionEvent) : ExecutionContext := { ctx with events := ctx.events ++ [event] }

def setInstance (inst : ProcessInstance) : ExecutionContext := { ctx with inst := some inst }

/-! ## Tokens -/

def updateToken (token : Token) : ExecutionContext :=
  { ctx with tokenMap := ctx.tokenMap.set token }

/-- `createToken`, with the fields that some callers add in an `updateToken` of their own before
they enqueue the token. -/
def createToken (instanceId : Nat) (elementId : String) (elementType : BpmnElementType)
    (scopeId : Nat) (arrivedViaFlowId : Option String := none) (parentTokenId : Option Nat := none)
    (subProcessInstanceId : Option String := none) : Token × ExecutionContext :=
  let (id, ctx) := ctx.newId
  let (createdAt, ctx) := ctx.now
  let (updatedAt, ctx) := ctx.now
  let token : Token :=
    { id, instanceId, elementId, elementType, status := .active, scopeId, arrivedViaFlowId,
      parentTokenId, subProcessInstanceId, createdAt, updatedAt }
  (token, ctx.updateToken token)

def requireToken (id : Nat) : Except EngineError Token :=
  match ctx.tokenMap.get? id with
  | some token => .ok token
  | none => .error (.runtime s!"Token \"{id}\" not found")

def requireInstance : Except EngineError ProcessInstance :=
  match ctx.inst with
  | some inst => .ok inst
  | none => .error (.runtime "No active process instance in execution context")

def getAllTokens : List Token := ctx.tokenMap.values

def enqueuePending (token : Token) : ExecutionContext :=
  { ctx with pendingQueue := ctx.pendingQueue ++ [token] }

def pendingCount : Nat := ctx.pendingQueue.length

/-- `ctx.updateToken({ ...token, status, updatedAt: ctx.now() })`. -/
def setStatus (token : Token) (status : TokenStatus) : ExecutionContext :=
  let (now, ctx) := ctx.now
  ctx.updateToken { token with status, updatedAt := now }

/-- Cancel one token at a given time, and say so in an event. -/
def cancelToken (token : Token) (now : Time) : ExecutionContext :=
  (ctx.updateToken { token with status := .cancelled, updatedAt := now }).emit
    (.tokenCancelled token.instanceId token.id token.elementId)

/-- Cancel tokens one after the other, all at one reading of the clock. -/
def cancelTokens (tokens : List Token) : ExecutionContext :=
  let (now, ctx) := ctx.now
  tokens.foldl (fun ctx token => ctx.cancelToken token now) ctx

/-! ## Scopes -/

def saveScope (scope : VariableScope) : ExecutionContext :=
  { ctx with scopeMap := ctx.scopeMap.set scope }

/-- The scope of an id and its ancestors, innermost first.  A chain longer than the map has a cycle,
on which the source does not terminate. -/
def scopeChain (scopeMap : KeyedMap VariableScope.id) : Nat → Option Nat →
    Except EngineError (List VariableScope)
  | _, none => .ok []
  | 0, some id =>
      match scopeMap.get? id with
      | none => .ok []
      | some _ => .error .outOfFuel
  | fuel + 1, some id =>
      match scopeMap.get? id with
      | none => .ok []
      | some scope => do .ok (scope :: (← scopeChain scopeMap fuel scope.parentScopeId))

/-- The variables visible in a scope: inner scopes hide outer ones. -/
def resolveScope (scopeId : Nat) : Except EngineError Variables := do
  let chain ← scopeChain ctx.scopeMap ctx.scopeMap.values.length (some scopeId)
  .ok (chain.reverse.foldl (fun result scope => result.assign scope.vars) ∅)

def mergeVariables (scopeId : Nat) (vars : Variables) : Except EngineError ExecutionContext :=
  match ctx.scopeMap.get? scopeId with
  | none => .error (.runtime s!"Scope \"{scopeId}\" not found")
  | some scope => .ok (ctx.saveScope { scope with vars := scope.vars.merge vars })

/-- `if (vars && Object.keys(vars).length > 0) ctx.mergeVariables(scopeId, vars)`. -/
def mergeOutput (scopeId : Nat) (vars : Option Variables) : Except EngineError ExecutionContext :=
  match vars with
  | some vars => if vars.values.isEmpty then .ok ctx else ctx.mergeVariables scopeId vars
  | none => .ok ctx

/-! ## Gateway join states -/

def getJoinState (gatewayId : String) : Option GatewayJoinState := ctx.joinStateMap.get? gatewayId

def saveJoinState (state : GatewayJoinState) : ExecutionContext :=
  { ctx with joinStateMap := ctx.joinStateMap.set state }

def deleteJoinState (gatewayId : String) : ExecutionContext :=
  { ctx with joinStateMap := ctx.joinStateMap.erase gatewayId }

/-! ## Compensation records -/

def addCompensationRecord (record : CompensationRecord) : ExecutionContext :=
  { ctx with compensationList := ctx.compensationList ++ [record] }

/-- `records.sort((a, b) => b.completedAt - a.completedAt)`, a stable sort. -/
def latestFirst (records : List CompensationRecord) : List CompensationRecord :=
  records.insertionSort fun a b => b.completedAt ≤ a.completedAt

/-- Take the records of one activity out, latest first. -/
def consumeCompensationRecords (activityId : String) :
    List CompensationRecord × ExecutionContext :=
  (latestFirst (ctx.compensationList.filter (·.activityId = activityId)),
    { ctx with compensationList := ctx.compensationList.filter (·.activityId ≠ activityId) })

/-- Take all records out, latest first. -/
def consumeAllCompensationRecords : List CompensationRecord × ExecutionContext :=
  (latestFirst ctx.compensationList, { ctx with compensationList := [] })

/-! ## Result -/

/-- The state part of `toResult`. -/
def toState (inst : ProcessInstance) : EngineState where
  inst := inst
  tokens := ctx.tokenMap.values
  scopes := ctx.scopeMap.values
  gatewayJoinStates := ctx.joinStateMap.values
  compensationRecords := ctx.compensationList

end ExecutionContext

end NexusWorkflow
