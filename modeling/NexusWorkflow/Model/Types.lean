import NexusWorkflow.Lib.KeyedMap

/-!
# The data model

The types of `model/types.ts` and `interfaces/EventBus.ts`, with the fields the engine reads or
writes.  Element and flow ids are the strings of the diagram.  The ids the engine makes up with
`generateId` (tokens, scopes, instances, join activations) are of type `Nat`: a UUID is only ever
compared with another one.
-/

namespace NexusWorkflow

/-- Milliseconds, as `Date.getTime` gives them. -/
abbrev Time := Int

/-! ## Values and variables -/

inductive JsNumber where
  | finite (q : Rat)
  | infinity (negative : Bool)
  | nan
  deriving DecidableEq

/-- A JavaScript value, as far as the engine looks into an `unknown`. -/
inductive Value where
  | undefined
  | null
  | bool (b : Bool)
  | number (n : JsNumber)
  | string (s : String)
  | array (items : List Value)
  | object (fields : List (String × Value))

/-- `Boolean(v)`. -/
def Value.truthy : Value → Bool
  | .undefined | .null | .number .nan => false
  | .bool b => b
  | .number (.finite q) => q ≠ 0
  | .string s => s ≠ ""
  | .number (.infinity _) | .array _ | .object _ => true

/-- An optional string in a condition: the empty string counts as absent. -/
def truthy (s : Option String) : Option String := s.filter (· ≠ "")

inductive VariableType where
  | string | number | boolean | object | array | null
  deriving DecidableEq

structure VariableValue where
  type : VariableType
  value : Value

/-- `Record<string, VariableValue>`. -/
abbrev Variables := KeyedMap (Prod.fst : String × VariableValue → String)

namespace Variables

def lookup (vars : Variables) (name : String) : Option VariableValue :=
  (vars.get? name).map Prod.snd

/-- `{ ...vars, ...more }`. -/
def merge (vars more : Variables) : Variables := more.values.foldl KeyedMap.set vars

/-- `Object.assign(vars, more)`: what `more` has under `__proto__` becomes the prototype of the
object, and none of its variables. -/
def assign (vars more : Variables) : Variables :=
  (more.values.filter (·.1 ≠ "__proto__")).foldl KeyedMap.set vars

def single (name : String) (value : VariableValue) : Variables := KeyedMap.ofList [(name, value)]

end Variables

structure VariableScope where
  id : Nat
  parentScopeId : Option Nat := none
  /-- The source's `variables`, a Lean keyword. -/
  vars : Variables

/-! ## Process definitions -/

inductive BpmnElementType where
  | startEvent | endEvent | intermediateCatchEvent | intermediateThrowEvent | boundaryEvent
  | serviceTask | userTask | scriptTask | manualTask | callActivity
  | exclusiveGateway | parallelGateway | inclusiveGateway | eventBasedGateway
  | subProcess
  deriving DecidableEq

def BpmnElementType.name : BpmnElementType → String
  | .startEvent => "startEvent"
  | .endEvent => "endEvent"
  | .intermediateCatchEvent => "intermediateCatchEvent"
  | .intermediateThrowEvent => "intermediateThrowEvent"
  | .boundaryEvent => "boundaryEvent"
  | .serviceTask => "serviceTask"
  | .userTask => "userTask"
  | .scriptTask => "scriptTask"
  | .manualTask => "manualTask"
  | .callActivity => "callActivity"
  | .exclusiveGateway => "exclusiveGateway"
  | .parallelGateway => "parallelGateway"
  | .inclusiveGateway => "inclusiveGateway"
  | .eventBasedGateway => "eventBasedGateway"
  | .subProcess => "subProcess"

inductive EventDefinitionType where
  | none | timer | message | signal | error | terminate | compensation | cancel
  | escalation | conditional | link
  deriving DecidableEq

def EventDefinitionType.name : EventDefinitionType → String
  | .none => "none"
  | .timer => "timer"
  | .message => "message"
  | .signal => "signal"
  | .error => "error"
  | .terminate => "terminate"
  | .compensation => "compensation"
  | .cancel => "cancel"
  | .escalation => "escalation"
  | .conditional => "conditional"
  | .link => "link"

structure EventDefinition where
  type : EventDefinitionType
  /-- For timer events: a duration, a date or a cycle. -/
  timerExpression : Option String := none
  messageName : Option String := none
  signalName : Option String := none
  errorCode : Option String := none
  /-- For compensation events: the activity whose handler is triggered, or the handler itself. -/
  compensationActivityRef : Option String := none
  deriving DecidableEq

structure SequenceFlow where
  id : String
  sourceRef : String
  targetRef : String
  conditionExpression : Option String := none
  isDefault : Bool := false
  deriving DecidableEq

structure BpmnElement where
  id : String
  name : Option String := none
  incomingFlows : List String := []
  outgoingFlows : List String
  deriving DecidableEq

/-- An input that a process declares on its start event. -/
structure ProcessInput where
  name : String
  hint : Option String := none
  type : Option String := none
  deriving DecidableEq

/-- Start, end and intermediate events: an element with an event definition; only start events
have inputs. -/
structure EventElement extends BpmnElement where
  eventDefinition : EventDefinition
  inputs : List ProcessInput := []
  deriving DecidableEq

structure BoundaryEventElement extends BpmnElement where
  attachedToRef : String
  cancelActivity : Bool
  eventDefinition : EventDefinition
  deriving DecidableEq

structure MultiInstanceLoopCharacteristics where
  isSequential : Bool
  inputCollection : String
  inputElement : Option String := none
  outputElement : Option String := none
  outputCollection : Option String := none
  completionCondition : Option String := none
  deriving DecidableEq

/-- Service, user, script and manual tasks; only service tasks have a `taskType`, only user tasks an
`assignee` and a `formKey`, only script tasks a `scriptLanguage` and a `script`. -/
structure TaskElement extends BpmnElement where
  taskType : Option String := none
  assignee : Option String := none
  formKey : Option String := none
  scriptLanguage : Option String := none
  script : Option String := none
  loopCharacteristics : Option MultiInstanceLoopCharacteristics := none
  isForCompensation : Bool := false
  deriving DecidableEq

structure CallActivityElement extends BpmnElement where
  calledElement : String
  deriving DecidableEq

inductive GatewayType where
  | exclusive | parallel | inclusive | eventBased
  deriving DecidableEq

structure GatewayElement extends BpmnElement where
  type : GatewayType
  defaultFlow : Option String := none
  /-- For event-based gateways: the instantiating variant, which is not supported. -/
  instantiate : Bool := false
  deriving DecidableEq

/-- The elements of a process; a sub-process holds elements and flows of its own. -/
inductive BpmnFlowElement where
  | startEvent (e : EventElement)
  | endEvent (e : EventElement)
  | intermediateCatchEvent (e : EventElement)
  | intermediateThrowEvent (e : EventElement)
  | boundaryEvent (e : BoundaryEventElement)
  | serviceTask (e : TaskElement)
  | userTask (e : TaskElement)
  | scriptTask (e : TaskElement)
  | manualTask (e : TaskElement)
  | callActivity (e : CallActivityElement)
  | gateway (e : GatewayElement)
  | subProcess (e : BpmnElement) (isTransaction : Bool) (elements : List BpmnFlowElement)
      (sequenceFlows : List SequenceFlow) (startEventId : String)

namespace BpmnFlowElement

def base : BpmnFlowElement → BpmnElement
  | startEvent e | endEvent e | intermediateCatchEvent e | intermediateThrowEvent e =>
      e.toBpmnElement
  | boundaryEvent e => e.toBpmnElement
  | serviceTask e | userTask e | scriptTask e | manualTask e => e.toBpmnElement
  | callActivity e => e.toBpmnElement
  | gateway e => e.toBpmnElement
  | subProcess e _ _ _ _ => e

def id (e : BpmnFlowElement) : String := e.base.id

def incomingFlows (e : BpmnFlowElement) : List String := e.base.incomingFlows

def outgoingFlows (e : BpmnFlowElement) : List String := e.base.outgoingFlows

def type : BpmnFlowElement → BpmnElementType
  | startEvent _ => .startEvent
  | endEvent _ => .endEvent
  | intermediateCatchEvent _ => .intermediateCatchEvent
  | intermediateThrowEvent _ => .intermediateThrowEvent
  | boundaryEvent _ => .boundaryEvent
  | serviceTask _ => .serviceTask
  | userTask _ => .userTask
  | scriptTask _ => .scriptTask
  | manualTask _ => .manualTask
  | callActivity _ => .callActivity
  | gateway e =>
      match e.type with
      | .exclusive => .exclusiveGateway
      | .parallel => .parallelGateway
      | .inclusive => .inclusiveGateway
      | .eventBased => .eventBasedGateway
  | subProcess _ _ _ _ _ => .subProcess

/-- `(element as MultiInstanceTaskElement).loopCharacteristics`: only tasks have any. -/
def loopCharacteristics : BpmnFlowElement → Option MultiInstanceLoopCharacteristics
  | serviceTask e | userTask e | scriptTask e | manualTask e => e.loopCharacteristics
  | _ => none

def isForCompensation : BpmnFlowElement → Bool
  | serviceTask e | userTask e | scriptTask e | manualTask e => e.isForCompensation
  | _ => false

/-- The element is an end event of type `cancel`. -/
def isCancelEnd : BpmnFlowElement → Bool
  | endEvent e => e.eventDefinition.type = .cancel
  | _ => false

end BpmnFlowElement

structure ProcessDefinition where
  id : String
  version : Nat
  name : Option String := none
  elements : List BpmnFlowElement
  sequenceFlows : List SequenceFlow
  startEventId : String
  deployedAt : Time := 0
  isDeployable : Bool

/-! ## Tokens -/

inductive TokenStatus where
  | active | waiting | suspended | cancelled | completed
  deriving DecidableEq

def TokenStatus.name : TokenStatus → String
  | .active => "active"
  | .waiting => "waiting"
  | .suspended => "suspended"
  | .cancelled => "cancelled"
  | .completed => "completed"

inductive WaitConditionType where
  | userTask | message | signal | timer | external
  deriving DecidableEq

/-- The keys the engine puts into a wait condition's `correlationData`. -/
structure CorrelationData where
  hostTaskId : Option String := none
  messageName : Option String := none
  signalName : Option String := none
  deriving DecidableEq

structure WaitCondition where
  type : WaitConditionType
  correlationData : Option CorrelationData := none
  deriving DecidableEq

structure LoopState where
  collection : List Value
  index : Nat
  iterationsRan : Nat

structure Token where
  id : Nat
  instanceId : Nat
  elementId : String
  elementType : BpmnElementType
  status : TokenStatus
  scopeId : Nat
  /-- The sequence flow through which this token arrived at its current element. -/
  arrivedViaFlowId : Option String := none
  parentTokenId : Option Nat := none
  subProcessInstanceId : Option String := none
  waitingFor : Option WaitCondition := none
  /-- Internal engine state for sequential multi-instance loops. -/
  loopState : Option LoopState := none
  createdAt : Time
  updatedAt : Time

namespace Token

/-- `waitingFor?.correlationData?.['hostTaskId']`. -/
def hostTaskId (t : Token) : Option String := do (← (← t.waitingFor).correlationData).hostTaskId

/-- `waitingFor?.correlationData?.['messageName']`. -/
def messageName (t : Token) : Option String := do (← (← t.waitingFor).correlationData).messageName

/-- `waitingFor?.correlationData?.['signalName']`. -/
def signalName (t : Token) : Option String := do (← (← t.waitingFor).correlationData).signalName

end Token

/-! ## Instances, join states, compensation records -/

inductive InstanceStatus where
  | pending | active | suspended | completed | terminated | error
  deriving DecidableEq

def InstanceStatus.terminal (s : InstanceStatus) : Bool := s = .completed || s = .terminated

def InstanceStatus.name : InstanceStatus → String
  | .pending => "pending"
  | .active => "active"
  | .suspended => "suspended"
  | .completed => "completed"
  | .terminated => "terminated"
  | .error => "error"

structure ProcessError where
  code : String
  message : String
  elementId : Option String := none
  tokenId : Option Nat := none
  deriving DecidableEq

structure ProcessInstance where
  id : Nat
  definitionId : String
  definitionVersion : Nat
  status : InstanceStatus
  rootScopeId : Nat
  correlationKey : Option String := none
  businessKey : Option String := none
  startedAt : Time
  completedAt : Option Time := none
  errorInfo : Option ProcessError := none
  deriving DecidableEq

structure ParallelGatewayJoinState where
  gatewayId : String
  instanceId : Nat
  activationId : Nat
  arrivedFromFlows : List String
  expectedFlows : List String
  deriving DecidableEq

structure InclusiveGatewayJoinState where
  gatewayId : String
  instanceId : Nat
  activationId : Nat
  activatedIncomingFlows : List String
  arrivedFromFlows : List String
  deriving DecidableEq

inductive GatewayJoinState where
  | parallel (s : ParallelGatewayJoinState)
  | inclusive (s : InclusiveGatewayJoinState)
  deriving DecidableEq

def GatewayJoinState.gatewayId : GatewayJoinState → String
  | parallel s => s.gatewayId
  | inclusive s => s.gatewayId

structure CompensationRecord where
  instanceId : Nat
  activityId : String
  tokenId : Nat
  handlerId : String
  completedAt : Time
  deriving DecidableEq

/-! ## Execution events -/

/-- The events the engine emits. -/
inductive ExecutionEvent where
  | processInstanceStarted (instanceId : Nat) (definitionId : String) (definitionVersion : Nat)
  | processInstanceCompleted (instanceId : Nat) (durationMs : Int)
  | processInstanceTerminated (instanceId : Nat) (reason : String)
  | processInstanceSuspended (instanceId : Nat)
  | processInstanceResumed (instanceId : Nat)
  | tokenMoved (instanceId tokenId : Nat) (fromElementId toElementId : String)
      (toElementType : BpmnElementType)
  | tokenWaiting (instanceId tokenId : Nat) (elementId : String) (waitingFor : WaitCondition)
  | tokenCancelled (instanceId tokenId : Nat) (elementId : String)
  | serviceTaskStarted (instanceId tokenId : Nat) (elementId taskType : String)
  | serviceTaskCompleted (instanceId tokenId : Nat) (elementId : String) (durationMs : Int)
  | serviceTaskFailed (instanceId tokenId : Nat) (elementId error : String) (attempt : Nat)
  | errorThrown (instanceId tokenId : Nat) (errorCode : String) (caught : Bool)
  | boundaryEventTriggered (instanceId tokenId : Nat) (boundaryEventId : String)
      (interrupting : Bool)
  | eventBasedGatewayActivated (instanceId tokenId : Nat) (elementId : String)
      (branches : List String)
  | multiInstanceStarted (instanceId tokenId : Nat) (elementId : String) (count : Nat)
      (isSequential : Bool)
  | multiInstanceCompleted (instanceId tokenId : Nat) (elementId : String) (iterationsRan : Nat)
  | compensationTriggered (instanceId tokenId : Nat) (elementId : String)
      (targetActivityId : Option String) (handlersStarted : List String)
  | compensationCompleted (instanceId tokenId : Nat) (elementId : String)
  | subProcessStarted (instanceId tokenId : Nat) (elementId : String)
  | subProcessCompleted (instanceId tokenId : Nat) (elementId : String)
  | transactionCancelled (instanceId tokenId : Nat) (elementId : String)
      (compensatedActivities : List String)
  deriving DecidableEq

end NexusWorkflow
