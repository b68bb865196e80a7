import NexusWorkflow.Model.Handlers

/-!
# The engine

Multi-instance activities, the dispatch of the run loop, the command handlers and `execute`.

Every path of a command handler that enqueues a token ends in a call of `runLoop`, and the paths
that do not call it leave the queue empty, where it returns at once.  So the handlers here stop
before that call, and `execute` makes it.
-/

namespace NexusWorkflow

open ExecutionContext

variable (d : ProcessDefinition)

/-! ## Multi-instance activities -/

/-- A child token for one item, in a scope of its own that holds the loop variable. -/
def spawnMultiInstanceChild (ctx : ExecutionContext) (parentToken : Token)
    (element : BpmnFlowElement) (lc : MultiInstanceLoopCharacteristics) (item : Value) :
    ExecutionContext :=
  let (scopeId, ctx) := ctx.newId
  let vars := match truthy lc.inputElement with
    | some name => Variables.single name { type := .object, value := item }
    | none => ∅
  let ctx := ctx.saveScope { id := scopeId, parentScopeId := some parentToken.scopeId, vars }
  let (childToken, ctx) := ctx.createToken parentToken.instanceId element.id element.type scopeId
    none (some parentToken.id)
  ctx.enqueuePending childToken

/-- `[lc.outputCollection]: { type: 'array', value }`. -/
def outputArray (name : String) (items : List Value) : Variables :=
  Variables.single name { type := .array, value := .array items }

/-- Initialize the output collection in the parent's scope, if one is configured. -/
def initOutputCollection (ctx : ExecutionContext) (token : Token)
    (lc : MultiInstanceLoopCharacteristics) : Except EngineError ExecutionContext :=
  match truthy lc.outputCollection with
  | some name => ctx.mergeVariables token.scopeId (outputArray name [])
  | none => .ok ctx

def handleMultiInstanceStart (ctx : ExecutionContext) (token : Token) (element : BpmnFlowElement)
    (lc : MultiInstanceLoopCharacteristics) : Except EngineError ExecutionContext := do
  let scope ← ctx.resolveScope token.scopeId
  match ← ctx.options.evaluate lc.inputCollection scope with
  | .array [] =>
      let ctx := ctx.setStatus token .completed
      let inst ← ctx.requireInstance
      let ctx := ctx.emit (.multiInstanceCompleted inst.id token.id element.id 0)
      advanceToken d ctx token element
  | .array (item :: items) =>
      let (now, ctx) := ctx.now
      let waiting : Token :=
        { token with
          status := .waiting, waitingFor := some { type := .external }, updatedAt := now }
      let ctx := ctx.updateToken waiting
      let inst ← ctx.requireInstance
      let started := .multiInstanceStarted inst.id token.id element.id (items.length + 1)
        lc.isSequential
      if lc.isSequential then
        let ctx := ctx.updateToken
          { waiting with
            loopState := some { collection := item :: items, index := 0, iterationsRan := 0 } }
        .ok (spawnMultiInstanceChild (ctx.emit started) token element lc item)
      else
        let ctx := ctx.emit started
        let ctx ← initOutputCollection ctx token lc
        .ok ((item :: items).foldl
          (fun ctx item => spawnMultiInstanceChild ctx token element lc item) ctx)
  | _ => .error (.runtime
      s!"Multi-instance inputCollection \"{lc.inputCollection}\" did not resolve to an array"
      (ctx.inst.map (·.id)))

/-- The activity is done: complete the parent, cancel the boundary tokens, leave by every flow. -/
def completeMultiInstance (ctx : ExecutionContext) (parentToken : Token)
    (element : BpmnFlowElement) (iterationsRan : Nat) : Except EngineError ExecutionContext := do
  let ctx := ctx.setStatus parentToken .completed
  let inst ← ctx.requireInstance
  let ctx := ctx.emit (.multiInstanceCompleted inst.id parentToken.id element.id iterationsRan)
  let ctx := cancelBoundaryTokensFor ctx element.id
  moveTokenToFlows d ctx parentToken element.outgoingFlows

/-- `lc.completionCondition`, evaluated in the scope of the child that just completed. -/
def completionConditionHolds (ctx : ExecutionContext) (childToken : Token)
    (lc : MultiInstanceLoopCharacteristics) : Except EngineError Bool :=
  match truthy lc.completionCondition with
  | none => .ok false
  | some condition => do
      evaluateExpression ctx (← ctx.resolveScope childToken.scopeId) condition

def handleSequentialChildCompletion (ctx : ExecutionContext) (childToken parentToken : Token)
    (element : BpmnFlowElement) (lc : MultiInstanceLoopCharacteristics) :
    Except EngineError ExecutionContext :=
  match parentToken.loopState with
  | none => .ok ctx
  | some loopState => do
      let iterationsRan := loopState.iterationsRan + 1
      if ← completionConditionHolds ctx childToken lc then
        completeMultiInstance d ctx parentToken element iterationsRan
      else
        match loopState.collection[loopState.index + 1]? with
        | none => completeMultiInstance d ctx parentToken element iterationsRan
        | some item =>
            let ctx := ctx.updateToken
              { parentToken with
                loopState := some
                  { loopState with index := loopState.index + 1, iterationsRan } }
            .ok (spawnMultiInstanceChild ctx parentToken element lc item)

def handleParallelChildCompletion (ctx : ExecutionContext) (childToken parentToken : Token)
    (element : BpmnFlowElement) (lc : MultiInstanceLoopCharacteristics) :
    Except EngineError ExecutionContext := do
  let children := fun (ctx : ExecutionContext) =>
    ctx.getAllTokens.filter fun t => t.parentTokenId = some parentToken.id
  let completed := fun (tokens : List Token) => (tokens.filter (·.status = .completed)).length
  if ← completionConditionHolds ctx childToken lc then
    let ctx := ctx.cancelTokens ((children ctx).filter (·.status = .waiting))
    completeMultiInstance d ctx parentToken element (completed (children ctx))
  else if (children ctx).all fun t => t.status = .completed || t.status = .cancelled then
    completeMultiInstance d ctx parentToken element (completed (children ctx))
  else .ok ctx

/-- Append the child's output value to the output collection in the parent's scope. -/
def collectOutput (ctx : ExecutionContext) (childToken parentToken : Token)
    (lc : MultiInstanceLoopCharacteristics) : Except EngineError ExecutionContext :=
  match truthy lc.outputElement, truthy lc.outputCollection with
  | some outputElement, some outputCollection => do
      let childScope ← ctx.resolveScope childToken.scopeId
      match childScope.lookup outputElement with
      | none => .ok ctx
      | some outputVal =>
          let parentScope ← ctx.resolveScope parentToken.scopeId
          let existing := match (parentScope.lookup outputCollection).map (·.value) with
            | some (.array items) => items
            | _ => []
          ctx.mergeVariables parentToken.scopeId
            (outputArray outputCollection (existing ++ [outputVal.value]))
  | _, _ => .ok ctx

def handleMultiInstanceChildCompletion (ctx : ExecutionContext) (childToken : Token)
    (element : BpmnFlowElement) (lc : MultiInstanceLoopCharacteristics) :
    Except EngineError ExecutionContext :=
  match childToken.parentTokenId.bind ctx.tokenMap.get? with
  | none => .ok ctx
  | some parentToken => do
      let ctx := ctx.setStatus childToken .completed
      let ctx ← collectOutput ctx childToken parentToken lc
      if lc.isSequential then
        handleSequentialChildCompletion d ctx childToken parentToken element lc
      else handleParallelChildCompletion d ctx childToken parentToken element lc

/-! ## Tasks -/

/-- What service, user and script tasks have in common: the multi-instance start for a token that is
not a child, and otherwise `otherwise`. -/
def handleTask (ctx : ExecutionContext) (token : Token) (element : BpmnFlowElement)
    (otherwise : Except EngineError ExecutionContext) : Except EngineError ExecutionContext :=
  match element.loopCharacteristics, token.parentTokenId with
  | some lc, none => handleMultiInstanceStart d ctx token element lc
  | _, _ => otherwise

def handleServiceTask (ctx : ExecutionContext) (token : Token) (element : TaskElement) :
    Except EngineError ExecutionContext :=
  handleTask d ctx token (.serviceTask element) do
    let inst ← ctx.requireInstance
    let ctx := ctx.emit (.serviceTaskStarted inst.id token.id element.id
      (element.taskType.getD "unknown"))
    .ok (spawnBoundaryTokens d (suspendToken ctx token .external) token element.id)

def handleUserTask (ctx : ExecutionContext) (token : Token) (element : TaskElement) :
    Except EngineError ExecutionContext :=
  handleTask d ctx token (.userTask element)
    (.ok (spawnBoundaryTokens d (suspendToken ctx token .userTask) token element.id))

/-- The `scriptTask` case of `processToken`. -/
def handleScriptTask (ctx : ExecutionContext) (token : Token) (element : TaskElement) :
    Except EngineError ExecutionContext :=
  handleTask d ctx token (.scriptTask element) (.ok (suspendToken ctx token .external))

/-- The `manualTask` case of `processToken`: a manual task completes at once. -/
def handleManualTask (ctx : ExecutionContext) (token : Token) (element : TaskElement) :
    Except EngineError ExecutionContext :=
  handleTask d ctx token (.manualTask element)
    (match token.parentTokenId, element.loopCharacteristics with
    | some _, some lc => handleMultiInstanceChildCompletion d ctx token (.manualTask element) lc
    | _, _ => advanceToken d ctx token (.manualTask element))

/-! ## The run loop -/

def processToken (ctx : ExecutionContext) (token : Token) :
    Except EngineError ExecutionContext := do
  let element ← d.getElement token.elementId
  match element with
  | .startEvent _ => advanceToken d ctx token element
  | .endEvent e => handleEndEvent d ctx token e
  | .serviceTask e => handleServiceTask d ctx token e
  | .userTask e => handleUserTask d ctx token e
  | .scriptTask e => handleScriptTask d ctx token e
  | .manualTask e => handleManualTask d ctx token e
  | .intermediateCatchEvent e => handleIntermediateCatchEvent ctx token e
  | .intermediateThrowEvent e => handleIntermediateThrowEvent d ctx token e
  | .boundaryEvent e => handleBoundaryEventWait ctx token e
  | .gateway e =>
      match e.type with
      | .exclusive => handleExclusiveGateway d ctx token e
      | .parallel => handleParallelGateway d ctx token e
      | .inclusive => handleInclusiveGateway d ctx token e
      | .eventBased => handleEventBasedGateway d ctx token e
  | .subProcess e isTransaction _ _ startEventId =>
      handleSubProcess d ctx token e isTransaction startEventId
  | .callActivity _ =>
      .error (.runtime s!"Unsupported element type: \"{element.type.name}\"")

/-- Take tokens from the queue and process them until it is empty.  The source's `while` need not
end; the model gives up when the fuel is used up. -/
def runLoop : Nat → ExecutionContext → Except EngineError ExecutionContext
  | fuel, ctx =>
      match ctx.pendingQueue with
      | [] => .ok ctx
      | token :: rest =>
          match fuel with
          | 0 => .error .outOfFuel
          | fuel + 1 => do
              let ctx ← processToken d { ctx with pendingQueue := rest } token
              runLoop fuel ctx

theorem runLoop_nil {fuel : Nat} {ctx : ExecutionContext} (h : ctx.pendingQueue = []) :
    runLoop d fuel ctx = .ok ctx := by
  rw [runLoop]
  simp only [h]

theorem runLoop_zero {ctx : ExecutionContext} {token : Token} {rest : List Token}
    (h : ctx.pendingQueue = token :: rest) : runLoop d 0 ctx = .error .outOfFuel := by
  rw [runLoop]
  simp only [h]

theorem runLoop_cons {fuel : Nat} {ctx : ExecutionContext} {token : Token} {rest : List Token}
    (h : ctx.pendingQueue = token :: rest) :
    runLoop d (fuel + 1) ctx = (do
      let ctx ← processToken d { ctx with pendingQueue := rest } token
      runLoop d fuel ctx) := by
  rw [runLoop]
  simp only [h]

/-! ## Compensation -/

/-- After a task completes, file a record if a compensation boundary event with a handler is
attached. -/
def recordCompensationIfNeeded (ctx : ExecutionContext) (token : Token)
    (element : BpmnFlowElement) : Except EngineError ExecutionContext :=
  match (d.findBoundariesFor element.id).find? (·.eventDefinition.type = .compensation) with
  | none => .ok ctx
  | some compBoundary =>
      match truthy compBoundary.eventDefinition.compensationActivityRef with
      | none => .ok ctx
      | some handlerId => do
          let inst ← ctx.requireInstance
          let (now, ctx) := ctx.now
          .ok (ctx.addCompensationRecord
            { instanceId := inst.id, activityId := element.id, tokenId := token.id, handlerId,
              completedAt := now })

/-- A compensation handler completes; the last one resumes the throw event, or fires the cancel
boundary of the transaction that was cancelled. -/
def handleCompensationHandlerCompletion (ctx : ExecutionContext) (handlerToken throwToken : Token) :
    Except EngineError ExecutionContext := do
  let ctx := ctx.setStatus handlerToken .completed
  let siblings := ctx.getAllTokens.filter fun t => t.parentTokenId = some throwToken.id
  if siblings.all fun t => t.status = .completed || t.status = .cancelled then
    let inst ← ctx.requireInstance
    let ctx := ctx.emit (.compensationCompleted inst.id throwToken.id throwToken.elementId)
    let throwElement ← d.getElement throwToken.elementId
    match throwElement.isCancelEnd, truthy throwToken.subProcessInstanceId with
    | true, some subProcessInstanceId =>
        match ctx.getAllTokens.find? fun t =>
            t.elementId = subProcessInstanceId ∧ t.status = .waiting with
        | some outerToken => fireCancelBoundary d ctx outerToken subProcessInstanceId
        | none => .ok ctx
    | _, _ => advanceToken d ctx throwToken throwElement
  else .ok ctx

/-! ## Command handlers -/

inductive EngineCommand where
  | startProcess (vars : Option Variables) (correlationKey businessKey : Option String)
  | completeServiceTask (tokenId : Nat) (outputVariables : Option Variables)
  | failServiceTask (tokenId : Nat) (code message : String)
  | completeUserTask (tokenId : Nat) (completedBy : String) (outputVariables : Option Variables)
  | fireTimer (tokenId : Nat)
  | deliverMessage (messageName : String) (vars : Option Variables)
  | broadcastSignal (signalName : String) (vars : Option Variables)
  | suspendInstance
  | resumeInstance
  | cancelInstance

def handleStartProcess (ctx : ExecutionContext) (vars : Option Variables)
    (correlationKey businessKey : Option String) : Except EngineError ExecutionContext := do
  let (startedAt, ctx) := ctx.now
  let (instanceId, ctx) := ctx.newId
  let (scopeId, ctx) := ctx.newId
  let ctx := ctx.saveScope { id := scopeId, vars := vars.getD ∅ }
  let ctx := ctx.setInstance
    { id := instanceId, definitionId := d.id, definitionVersion := d.version, status := .active,
      rootScopeId := scopeId, startedAt, correlationKey, businessKey }
  let ctx := ctx.emit (.processInstanceStarted instanceId d.id d.version)
  let startElement ← d.getElement d.startEventId
  let (startToken, ctx) := ctx.createToken instanceId startElement.id startElement.type scopeId
  .ok (ctx.enqueuePending startToken)

/-- The token a command addresses, which has to be waiting. -/
def requireWaiting (ctx : ExecutionContext) (action : Nat → String) (tokenId : Nat)
    (instanceId : Option Nat) : Except EngineError Token := do
  let token ← ctx.requireToken tokenId
  if token.status ≠ .waiting then
    .error (.runtime
      s!"Cannot {action tokenId} — status is \"{token.status.name}\", expected \"waiting\""
      instanceId)
  else .ok token

/-- A task of a suspended instance is completed: the instance is active again. -/
def autoResume (ctx : ExecutionContext) : Except EngineError ExecutionContext := do
  let inst ← ctx.requireInstance
  if inst.status = .suspended then
    .ok ((ctx.setInstance { inst with status := .active }).emit (.processInstanceResumed inst.id))
  else .ok ctx

/-- What completes when a task's token does. -/
inductive CompletionRole where
  /-- A child of the multi-instance activity. -/
  | child (lc : MultiInstanceLoopCharacteristics)
  /-- A handler started by this compensation throw or cancel end event. -/
  | handler (throwToken : Token)
  | plain

/-- The case distinction of `handleCompleteTask` on the token's parent. -/
def completionRole (ctx : ExecutionContext) (token : Token) (element : BpmnFlowElement) :
    CompletionRole :=
  match token.parentTokenId.bind ctx.tokenMap.get? with
  | none => .plain
  | some parentToken =>
      match element.loopCharacteristics.filter fun _ => parentToken.elementId = token.elementId with
      | some lc => .child lc
      | none =>
          if (parentToken.elementType = .intermediateThrowEvent
              ∨ parentToken.elementType = .endEvent) ∧ element.isForCompensation then
            .handler parentToken
          else .plain

/-- Only service task children have a completion event of their own. -/
def emitChildCompleted (ctx : ExecutionContext) (token : Token) (element : BpmnFlowElement) :
    Except EngineError ExecutionContext :=
  if element.type = .serviceTask then do
    let inst ← ctx.requireInstance
    .ok (ctx.emit (.serviceTaskCompleted inst.id token.id token.elementId 0))
  else .ok ctx

def handleCompleteTask (ctx : ExecutionContext) (tokenId : Nat)
    (outputVariables : Option Variables) : Except EngineError ExecutionContext := do
  let token ← requireWaiting ctx (fun id => s!"complete token \"{id}\"") tokenId
    (ctx.inst.map (·.id))
  let ctx ← autoResume ctx
  let ctx ← ctx.mergeOutput token.scopeId outputVariables
  let element ← d.getElement token.elementId
  match completionRole ctx token element with
  | .child lc =>
      let ctx ← emitChildCompleted ctx token element
      handleMultiInstanceChildCompletion d ctx token element lc
  | .handler throwToken => handleCompensationHandlerCompletion d ctx token throwToken
  | .plain =>
      let inst ← ctx.requireInstance
      let ctx := ctx.emit (.serviceTaskCompleted inst.id tokenId token.elementId 0)
      let ctx := cancelBoundaryTokensFor ctx token.elementId
      let ctx ← recordCompensationIfNeeded d ctx token element
      advanceToken d ctx token element

def handleFailServiceTask (ctx : ExecutionContext) (tokenId : Nat) (code message : String) :
    Except EngineError ExecutionContext := do
  let token ← requireWaiting ctx (fun id => s!"fail token \"{id}\"") tokenId none
  let inst ← ctx.requireInstance
  let ctx := ctx.emit (.serviceTaskFailed inst.id token.id token.elementId message 1)
  match d.findMatchingErrorBoundary token.elementId code with
  | some errorBoundary =>
      let (now, ctx) := ctx.now
      let ctx := ctx.cancelToken token now
      let ctx := cancelHostTaskAndBoundaries ctx token.elementId none
      let ctx := ctx.emit (.errorThrown inst.id token.id code true)
      let ctx := ctx.emit (.boundaryEventTriggered inst.id token.id errorBoundary.id
        errorBoundary.cancelActivity)
      moveTokenToFlows d ctx token errorBoundary.outgoingFlows
  | none =>
      let ctx := ctx.setInstance
        { inst with
          status := .suspended
          errorInfo := some
            { code, message, tokenId := some token.id, elementId := some token.elementId } }
      let ctx := ctx.emit (.processInstanceSuspended inst.id)
      .ok (ctx.emit (.errorThrown inst.id token.id code false))

def handleFireTimer (ctx : ExecutionContext) (tokenId : Nat) :
    Except EngineError ExecutionContext := do
  let token ← requireWaiting ctx (fun id => s!"fire timer for token \"{id}\"") tokenId
    (ctx.inst.map (·.id))
  if token.elementType = .boundaryEvent then
    let element ← d.getElement token.elementId
    let ctx := ctx.setStatus token .completed
    let ctx := match element with
      | .boundaryEvent b =>
          if b.cancelActivity then cancelHostTaskAndBoundaries ctx b.attachedToRef (some tokenId)
          else ctx
      | _ => ctx
    moveTokenToFlows d ctx token element.outgoingFlows
  else handleCompleteTask d (cancelEbgSiblings ctx token) tokenId none

/-- One target of a message or a signal; an earlier target may have cancelled it. -/
def resumeTarget (vars : Option Variables) (ctx : ExecutionContext) (token : Token) :
    Except EngineError ExecutionContext := do
  let current ← ctx.requireToken token.id
  if current.status ≠ .waiting then .ok ctx
  else
    let ctx ← ctx.mergeOutput token.scopeId vars
    let ctx := ctx.setStatus token .completed
    advanceTokenFlows d (cancelEbgSiblings ctx token) token

/-- `handleDeliverMessage` and `handleBroadcastSignal`: resume every token that waits for the
event. -/
def resumeTargets (ctx : ExecutionContext) (isTarget : Token → Bool) (vars : Option Variables) :
    Except EngineError ExecutionContext :=
  (ctx.getAllTokens.filter fun t => t.status = .waiting && isTarget t).foldlM
    (resumeTarget d vars) ctx

/-- The token waits for an event of the given type. -/
def Token.waitsFor (t : Token) (type : WaitConditionType) : Bool := t.waitingFor.any (·.type = type)

def handleDeliverMessage (ctx : ExecutionContext) (messageName : String)
    (vars : Option Variables) : Except EngineError ExecutionContext :=
  resumeTargets d ctx (fun t => t.waitsFor .message && t.messageName = some messageName) vars

def handleBroadcastSignal (ctx : ExecutionContext) (signalName : String)
    (vars : Option Variables) : Except EngineError ExecutionContext :=
  resumeTargets d ctx (fun t => t.waitsFor .signal && t.signalName = some signalName) vars

def handleSuspendInstance (ctx : ExecutionContext) : Except EngineError ExecutionContext := do
  let inst ← ctx.requireInstance
  if inst.status ≠ .active then
    .error (.runtime
      s!"Cannot suspend instance — status is \"{inst.status.name}\", expected \"active\""
      (some inst.id))
  else
    .ok ((ctx.setInstance { inst with status := .suspended }).emit
      (.processInstanceSuspended inst.id))

def handleResumeInstance (ctx : ExecutionContext) : Except EngineError ExecutionContext := do
  let inst ← ctx.requireInstance
  if inst.status ≠ .suspended then
    .error (.runtime
      s!"Cannot resume instance — status is \"{inst.status.name}\", expected \"suspended\""
      (some inst.id))
  else
    .ok ((ctx.setInstance { inst with status := .active }).emit (.processInstanceResumed inst.id))

def handleCancelInstance (ctx : ExecutionContext) : Except EngineError ExecutionContext := do
  let ctx := ctx.cancelTokens (ctx.getAllTokens.filter Token.live)
  let inst ← ctx.requireInstance
  .ok ((ctx.setInstance { inst with status := .terminated }).emit
    (.processInstanceTerminated inst.id "cancelled by admin"))

/-- The handler of a command, up to its call of `runLoop`. -/
def handleCommand (ctx : ExecutionContext) :
    EngineCommand → Except EngineError ExecutionContext
  | .startProcess vars correlationKey businessKey =>
      handleStartProcess d ctx vars correlationKey businessKey
  | .completeServiceTask tokenId outputVariables => handleCompleteTask d ctx tokenId outputVariables
  | .failServiceTask tokenId code message => handleFailServiceTask d ctx tokenId code message
  | .completeUserTask tokenId _ outputVariables => handleCompleteTask d ctx tokenId outputVariables
  | .fireTimer tokenId => handleFireTimer d ctx tokenId
  | .deliverMessage messageName vars => handleDeliverMessage d ctx messageName vars
  | .broadcastSignal signalName vars => handleBroadcastSignal d ctx signalName vars
  | .suspendInstance => handleSuspendInstance ctx
  | .resumeInstance => handleResumeInstance ctx
  | .cancelInstance => handleCancelInstance ctx

/-! ## Entry point -/

structure EngineResult where
  newState : EngineState
  events : List ExecutionEvent
  /-- The ids from here on are unused: what `generateId` would hand out next. -/
  nextId : Nat

def ExecutionContext.toResult (ctx : ExecutionContext) : Except EngineError EngineResult := do
  let inst ← ctx.requireInstance
  .ok { newState := ctx.toState inst, events := ctx.events, nextId := ctx.nextId }

def execute (fuel : Nat) (command : EngineCommand) (state : Option EngineState)
    (options : ExecuteOptions) : Except EngineError EngineResult := do
  let ctx ← handleCommand d (ExecutionContext.create state options) command
  let ctx ← runLoop d fuel ctx
  ctx.toResult

end NexusWorkflow
