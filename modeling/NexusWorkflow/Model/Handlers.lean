import NexusWorkflow.Model.Context
import NexusWorkflow.Model.Gateways

/-!
# Element handlers

The handlers of `ExecutionEngine.ts` that move tokens: what happens to a token that the run loop
takes from the queue, and the helpers shared with the commands.  Each follows its source function
statement by statement; an early `return` is an `if`, a `throw` an `Except.error`.
-/

namespace NexusWorkflow

open ExecutionContext

variable (d : ProcessDefinition)

/-! ## Moving and suspending tokens -/

/-- Put a new token on a flow, at the flow's target, with the scope and sub-process of
`fromToken`. -/
def moveTokenToFlow (ctx : ExecutionContext) (fromToken : Token) (flowId : String) :
    Except EngineError ExecutionContext := do
  let flow ← d.getFlow flowId
  let targetElement ← d.getElement flow.targetRef
  let (newToken, ctx) := ctx.createToken fromToken.instanceId targetElement.id targetElement.type
    fromToken.scopeId (some flowId) none (truthy fromToken.subProcessInstanceId)
  let ctx := ctx.emit (.tokenMoved fromToken.instanceId newToken.id fromToken.elementId
    targetElement.id targetElement.type)
  .ok (ctx.enqueuePending newToken)

/-- `for (const flowId of flows) moveTokenToFlow(ctx, fromToken, flowId, definition)`. -/
def moveTokenToFlows (ctx : ExecutionContext) (fromToken : Token) (flows : List String) :
    Except EngineError ExecutionContext :=
  flows.foldlM (fun ctx flowId => moveTokenToFlow d ctx fromToken flowId) ctx

def advanceToken (ctx : ExecutionContext) (token : Token) (element : BpmnFlowElement) :
    Except EngineError ExecutionContext :=
  moveTokenToFlows d (ctx.setStatus token .completed) token element.outgoingFlows

/-- Enqueue new tokens on every outgoing flow of the given token's element. -/
def advanceTokenFlows (ctx : ExecutionContext) (token : Token) :
    Except EngineError ExecutionContext := do
  let element ← d.getElement token.elementId
  moveTokenToFlows d ctx token element.outgoingFlows

def suspendTokenWithCondition (ctx : ExecutionContext) (token : Token) (condition : WaitCondition) :
    ExecutionContext :=
  let (now, ctx) := ctx.now
  let ctx := ctx.updateToken
    { token with status := .waiting, waitingFor := some condition, updatedAt := now }
  ctx.emit (.tokenWaiting token.instanceId token.id token.elementId condition)

def suspendToken (ctx : ExecutionContext) (token : Token) (waitType : WaitConditionType) :
    ExecutionContext :=
  suspendTokenWithCondition ctx token { type := waitType }

def completeInstance (ctx : ExecutionContext) : Except EngineError ExecutionContext := do
  let inst ← ctx.requireInstance
  let (now, ctx) := ctx.now
  let ctx := ctx.setInstance { inst with status := .completed, completedAt := some now }
  .ok (ctx.emit (.processInstanceCompleted inst.id (now - inst.startedAt)))

/-- `Boolean(evaluator.evaluate(expression, { variables: scope }))`. -/
def evaluateExpression (ctx : ExecutionContext) (scope : Variables) (expression : String) :
    Except EngineError Bool := do
  .ok (← ctx.options.evaluate expression scope).truthy

/-! ## Boundary events -/

/-- A token of a live status: active or waiting. -/
def Token.live (t : Token) : Bool := t.status = .active || t.status = .waiting

/-- A new token at each boundary event attached to the host's element, compensation ones apart. -/
def spawnBoundaryTokens (ctx : ExecutionContext) (hostToken : Token) (taskElementId : String) :
    ExecutionContext :=
  let boundaries :=
    (d.findBoundariesFor taskElementId).filter (·.eventDefinition.type ≠ .compensation)
  boundaries.foldl (fun ctx boundary =>
    let (token, ctx) := ctx.createToken hostToken.instanceId boundary.id .boundaryEvent
      hostToken.scopeId none none (truthy hostToken.subProcessInstanceId)
    ctx.enqueuePending token) ctx

/-- Cancel any waiting boundary tokens whose host task just completed normally. -/
def cancelBoundaryTokensFor (ctx : ExecutionContext) (taskElementId : String) : ExecutionContext :=
  ctx.cancelTokens (ctx.getAllTokens.filter fun t =>
    t.status = .waiting ∧ t.elementType = .boundaryEvent ∧ t.hostTaskId = some taskElementId)

/-- Cancel the tokens waiting at the host task and at its boundary events, except the one that
fired. -/
def cancelHostTaskAndBoundaries (ctx : ExecutionContext) (attachedToRef : String)
    (firingBoundaryTokenId : Option Nat) : ExecutionContext :=
  ctx.cancelTokens (ctx.getAllTokens.filter fun t =>
    some t.id ≠ firingBoundaryTokenId ∧ t.status = .waiting ∧
      (t.elementId = attachedToRef ∨ t.hostTaskId = some attachedToRef))

/-- When a branch of an event-based gateway wins, cancel its waiting siblings. -/
def cancelEbgSiblings (ctx : ExecutionContext) (winnerToken : Token) : ExecutionContext :=
  match winnerToken.parentTokenId with
  | none => ctx
  | some parent => ctx.cancelTokens (ctx.getAllTokens.filter fun t =>
      t.id ≠ winnerToken.id ∧ t.parentTokenId = some parent ∧ t.status = .waiting)

def handleBoundaryEventWait (ctx : ExecutionContext) (token : Token)
    (element : BoundaryEventElement) : Except EngineError ExecutionContext :=
  let base : CorrelationData := { hostTaskId := some element.attachedToRef }
  let definition := element.eventDefinition
  match definition.type with
  | .timer =>
      .ok (suspendTokenWithCondition ctx token { type := .timer, correlationData := some base })
  | .message =>
      .ok (suspendTokenWithCondition ctx token
        { type := .message,
          correlationData :=
            some { base with messageName := some (definition.messageName.getD "") } })
  | .signal =>
      .ok (suspendTokenWithCondition ctx token
        { type := .signal
          correlationData := some
            { base with signalName := some (definition.signalName.getD "") } })
  | .error | .cancel =>
      .ok (suspendTokenWithCondition ctx token { type := .external, correlationData := some base })
  | type => .error (.runtime s!"Unsupported boundaryEvent definition type: \"{type.name}\"")

/-! ## Sub-processes and transactions -/

def handleSubProcess (ctx : ExecutionContext) (token : Token) (element : BpmnElement)
    (isTransaction : Bool) (startEventId : String) : Except EngineError ExecutionContext := do
  let inst ← ctx.requireInstance
  let (childScopeId, ctx) := ctx.newId
  let ctx := ctx.saveScope { id := childScopeId, parentScopeId := some token.scopeId, vars := ∅ }
  let ctx := suspendToken ctx token .external
  let ctx := if isTransaction then spawnBoundaryTokens d ctx token element.id else ctx
  let ctx := ctx.emit (.subProcessStarted inst.id token.id element.id)
  let (innerStart, ctx) := ctx.createToken inst.id startEventId .startEvent childScopeId none none
    (some element.id)
  .ok (ctx.enqueuePending innerStart)

/-- Merge the variables of the first inner token's scope into the outer scope. -/
def propagateInner (ctx : ExecutionContext) (innerTokens : List Token) (outerToken : Token) :
    Except EngineError ExecutionContext :=
  match innerTokens.head? with
  | none => .ok ctx
  | some firstInner => do
      let innerVars ← ctx.resolveScope firstInner.scopeId
      ctx.mergeOutput outerToken.scopeId (some innerVars)

/-- Called when an inner end event of a sub-process completes: when nothing inside is live any more,
propagate the inner variables and advance the token waiting at the sub-process. -/
def checkSubProcessCompletion (ctx : ExecutionContext) (subProcessInstanceId : String) :
    Except EngineError ExecutionContext := do
  let innerTokens := ctx.getAllTokens.filter fun t =>
    t.subProcessInstanceId = some subProcessInstanceId
  if innerTokens.any Token.live then .ok ctx
  else
    match ctx.getAllTokens.find? fun t =>
        t.elementId = subProcessInstanceId ∧ t.status = .waiting with
    | none => .ok ctx
    | some outerToken =>
        let inst ← ctx.requireInstance
        let ctx ← propagateInner ctx innerTokens outerToken
        let ctx := ctx.emit (.subProcessCompleted inst.id outerToken.id subProcessInstanceId)
        let subProcessElement ← d.getElement subProcessInstanceId
        advanceToken d ctx outerToken subProcessElement

/-- Fire the cancel boundary event attached to a transaction, if a token waits at it. -/
def fireCancelBoundary (ctx : ExecutionContext) (outerToken : Token)
    (subProcessElementId : String) : Except EngineError ExecutionContext :=
  match (d.findBoundariesFor subProcessElementId).find? (·.eventDefinition.type = .cancel) with
  | none => .ok ctx
  | some cancelBoundary =>
      match ctx.getAllTokens.find? fun t =>
          t.elementId = cancelBoundary.id ∧ t.status = .waiting with
      | none => .ok ctx
      | some boundaryToken =>
          let ctx := ctx.setStatus boundaryToken .completed
          let ctx := ctx.emit
            (.boundaryEventTriggered outerToken.instanceId boundaryToken.id cancelBoundary.id true)
          let (now, ctx) := ctx.now
          let ctx := ctx.cancelToken outerToken now
          moveTokenToFlows d ctx boundaryToken cancelBoundary.outgoingFlows

/-- Start the handler of one compensation record on behalf of `source`: a token at the handler's
element, if `find` knows the element. -/
def startHandler (find : String → Option BpmnFlowElement) (instanceId : Nat) (source : Token)
    (subProcessInstanceId : Option String) (acc : ExecutionContext × List CompensationRecord)
    (record : CompensationRecord) : ExecutionContext × List CompensationRecord :=
  match find record.handlerId with
  | none => acc
  | some handlerElement =>
      let (handlerToken, ctx) := acc.1.createToken instanceId record.handlerId handlerElement.type
        source.scopeId none (some source.id) subProcessInstanceId
      let ctx := ctx.emit (.tokenMoved instanceId handlerToken.id source.elementId record.handlerId
        handlerElement.type)
      (ctx.enqueuePending handlerToken, acc.2 ++ [record])

/-- Called when a cancel end event fires inside a transaction: cancel what is live inside, start the
compensation handlers, or fire the cancel boundary at once when there is nothing to compensate. -/
def handleTransactionCancel (ctx : ExecutionContext) (cancelToken : Token) :
    Except EngineError ExecutionContext :=
  match truthy cancelToken.subProcessInstanceId with
  | none => .ok ctx
  | some subProcessInstanceId => do
      let inst ← ctx.requireInstance
      let ctx := ctx.cancelTokens (ctx.getAllTokens.filter fun t =>
        t.id ≠ cancelToken.id ∧ t.subProcessInstanceId = some subProcessInstanceId ∧ t.live)
      let outerToken := ctx.getAllTokens.find? fun t =>
        t.elementId = subProcessInstanceId ∧ t.status = .waiting
      let (records, ctx) := ctx.consumeAllCompensationRecords
      let (ctx, started) := records.foldl (startHandler (findElementInTree d.elements) inst.id
        cancelToken (some subProcessInstanceId)) (ctx, [])
      let ctx := ctx.emit (.transactionCancelled inst.id cancelToken.id subProcessInstanceId
        (started.map (·.activityId)))
      match records, outerToken with
      | [], some outerToken => fireCancelBoundary d ctx outerToken subProcessInstanceId
      | _, _ => .ok ctx

/-! ## Events -/

def handleEndEvent (ctx : ExecutionContext) (token : Token) (element : EventElement) :
    Except EngineError ExecutionContext :=
  let ctx := ctx.setStatus token .completed
  if element.eventDefinition.type = .cancel then handleTransactionCancel d ctx token
  else if element.eventDefinition.type = .terminate then
    let others := ctx.getAllTokens.filter fun t => t.id ≠ token.id ∧ t.live
    completeInstance (others.foldl (fun ctx t =>
      let (now, ctx) := ctx.now
      ctx.cancelToken t now) ctx)
  else
    match truthy token.subProcessInstanceId with
    | some subProcessInstanceId => checkSubProcessCompletion d ctx subProcessInstanceId
    | none =>
        if (ctx.getAllTokens.filter Token.live).length = 0 ∧ ctx.pendingCount = 0 then
          completeInstance ctx
        else .ok ctx

def handleIntermediateCatchEvent (ctx : ExecutionContext) (token : Token)
    (element : EventElement) : Except EngineError ExecutionContext :=
  let definition := element.eventDefinition
  match definition.type with
  | .timer => .ok (suspendTokenWithCondition ctx token { type := .timer })
  | .message =>
      .ok (suspendTokenWithCondition ctx token
        { type := .message,
          correlationData := some { messageName := some (definition.messageName.getD "") } })
  | .signal =>
      .ok (suspendTokenWithCondition ctx token
        { type := .signal,
          correlationData := some { signalName := some (definition.signalName.getD "") } })
  | type => .error (.runtime
      s!"Unsupported intermediateCatchEvent definition type: \"{type.name}\"")

/-- The records to compensate: those of the target, or all. -/
def consumeRecords (ctx : ExecutionContext) (target : Option String) :
    List CompensationRecord × ExecutionContext :=
  match target with
  | some activity => ctx.consumeCompensationRecords activity
  | none => ctx.consumeAllCompensationRecords

/-- A compensation throw event: start the handlers of the records it consumes and wait for them, or
pass when there is nothing to compensate. -/
def handleCompensationThrow (ctx : ExecutionContext) (token : Token) (element : EventElement) :
    Except EngineError ExecutionContext := do
  let inst ← ctx.requireInstance
  let target := truthy element.eventDefinition.compensationActivityRef
  let (records, ctx) := consumeRecords ctx target
  if records.isEmpty then
    let ctx := ctx.emit (.compensationTriggered inst.id token.id element.id target [])
    advanceToken d ctx token (.intermediateThrowEvent element)
  else
    let ctx := suspendToken ctx token .external
    -- handlers are looked up among the top-level elements only
    let (ctx, started) := records.foldl (startHandler
      (fun handlerId => d.elements.find? (·.id = handlerId)) inst.id token none) (ctx, [])
    .ok (ctx.emit (.compensationTriggered inst.id token.id element.id target
      (started.map (·.handlerId))))

def handleIntermediateThrowEvent (ctx : ExecutionContext) (token : Token)
    (element : EventElement) : Except EngineError ExecutionContext :=
  if element.eventDefinition.type = .compensation then handleCompensationThrow d ctx token element
  else advanceToken d ctx token (.intermediateThrowEvent element)

/-! ## Gateways -/

def handleExclusiveGateway (ctx : ExecutionContext) (token : Token) (element : GatewayElement) :
    Except EngineError ExecutionContext := do
  let outgoing := d.getOutgoingFlows element.id
  let scope ← ctx.resolveScope token.scopeId
  let selectedFlowId ← evaluateExclusiveSplit element.id outgoing element.defaultFlow
    (evaluateExpression ctx scope)
  moveTokenToFlow d (ctx.setStatus token .completed) token selectedFlowId

/-- The join state a parallel join starts from when none is stored. -/
def parallelJoinStart (ctx : ExecutionContext) (gatewayId : String) (incoming : List SequenceFlow) :
    Except EngineError (ParallelGatewayJoinState × ExecutionContext) :=
  match ctx.getJoinState gatewayId with
  | some (.parallel state) => .ok (state, ctx)
  | some (.inclusive _) =>
      .error (.typeError "Cannot read properties of undefined (reading 'every')")
  | none => do
      let inst ← ctx.requireInstance
      let (activationId, ctx) := ctx.newId
      .ok ({ gatewayId, instanceId := inst.id, activationId, arrivedFromFlows := [],
             expectedFlows := incoming.map (·.id) }, ctx)

def handleParallelGateway (ctx : ExecutionContext) (token : Token) (element : GatewayElement) :
    Except EngineError ExecutionContext := do
  let outgoing := d.getOutgoingFlows element.id
  match d.getIncomingFlows element.id with
  | firstIncoming :: second :: rest =>
      let arrivingFlowId := token.arrivedViaFlowId.getD firstIncoming.id
      let (state, ctx) ← parallelJoinStart ctx element.id (firstIncoming :: second :: rest)
      let result := evaluateParallelJoin arrivingFlowId state
      let ctx := ctx.setStatus token .completed
      if result.fires then
        moveTokenToFlows d (ctx.deleteJoinState element.id) token (outgoing.map (·.id))
      else .ok (ctx.saveJoinState (.parallel result.updatedState))
  | _ =>
      let selectedFlowIds ← evaluateParallelSplit element.id outgoing
      moveTokenToFlows d (ctx.setStatus token .completed) token selectedFlowIds

/-- The first inclusive join of the top level that some activated flow enters directly, and the
activated flows that do. -/
def findInclusiveJoinIncoming (activatedFlowIds : List String) : Option (String × List String) :=
  d.elements.findSome? fun
    | .gateway g =>
        if g.type = .inclusive then
          let incoming := d.getIncomingFlows g.id
          let entering := activatedFlowIds.filter fun fid => incoming.any (·.id = fid)
          if 1 < incoming.length ∧ entering.any fun fid => d.sequenceFlows.any (·.id = fid) then
            some (g.id, entering)
          else none
        else none
    | _ => none

/-- Record the join state so that the join knows which flows to wait for. -/
def registerInclusiveJoin (ctx : ExecutionContext) (activatedFlowIds : List String) :
    Except EngineError ExecutionContext :=
  match findInclusiveJoinIncoming d activatedFlowIds with
  | none => .ok ctx
  | some (joinGatewayId, incomingFlows) => do
      let inst ← ctx.requireInstance
      let (activationId, ctx) := ctx.newId
      .ok (ctx.saveJoinState (.inclusive
        { gatewayId := joinGatewayId, instanceId := inst.id, activationId,
          activatedIncomingFlows := incomingFlows, arrivedFromFlows := [] }))

def handleInclusiveGateway (ctx : ExecutionContext) (token : Token) (element : GatewayElement) :
    Except EngineError ExecutionContext := do
  let outgoing := d.getOutgoingFlows element.id
  match d.getIncomingFlows element.id with
  | firstIncoming :: _ :: _ =>
      let arrivingFlowId := token.arrivedViaFlowId.getD firstIncoming.id
      match ctx.getJoinState element.id with
      | none => .error (.runtime (
          s!"Inclusive gateway \"{element.id}\" received a token at the join but has no " ++
          "corresponding split state. Ensure the split recorded activatedIncomingFlows."))
      | some (.parallel _) =>
          .error (.typeError "Cannot read properties of undefined (reading 'every')")
      | some (.inclusive state) =>
          let result := evaluateInclusiveJoin arrivingFlowId state
          let ctx := ctx.setStatus token .completed
          if result.fires then
            moveTokenToFlows d (ctx.deleteJoinState element.id) token (outgoing.map (·.id))
          else .ok (ctx.saveJoinState (.inclusive result.updatedState))
  | _ =>
      let scope ← ctx.resolveScope token.scopeId
      let activatedFlowIds ← evaluateInclusiveSplit element.id outgoing element.defaultFlow
        (evaluateExpression ctx scope)
      let ctx ← registerInclusiveJoin d ctx activatedFlowIds
      moveTokenToFlows d (ctx.setStatus token .completed) token activatedFlowIds

/-- One branch of an event-based gateway: a child token placed directly at the catch event. -/
def spawnBranch (token : Token) (ctx : ExecutionContext) (flow : SequenceFlow) :
    Except EngineError ExecutionContext := do
  let targetElement ← d.getElement flow.targetRef
  let (childToken, ctx) := ctx.createToken token.instanceId targetElement.id targetElement.type
    token.scopeId (some flow.id) (some token.id)
  let ctx := ctx.emit (.tokenMoved token.instanceId childToken.id token.elementId targetElement.id
    targetElement.type)
  .ok (ctx.enqueuePending childToken)

def handleEventBasedGateway (ctx : ExecutionContext) (token : Token) (element : GatewayElement) :
    Except EngineError ExecutionContext := do
  validateEventBasedGateway element d
  let outgoing := d.getOutgoingFlows element.id
  let ctx := ctx.setStatus token .completed
  let ctx ← outgoing.foldlM (spawnBranch d token) ctx
  -- `getElement` gives an element of the id asked for
  .ok (ctx.emit (.eventBasedGatewayActivated token.instanceId token.id element.id
    (outgoing.map (·.targetRef))))

end NexusWorkflow
