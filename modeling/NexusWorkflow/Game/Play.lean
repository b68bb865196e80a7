import NexusWorkflow.Game.Spawning

/-!
# The token game

The rules of the engine on the pool.  A rule changes tokens that are there, which gives the pool
`Q`, and makes new ones: the list of their `Origin`s.  `Turn` has the rules for a token taken from
the queue, `Deed` those for a command, and `Resume` the one for a target of a message or a signal.
-/

namespace NexusWorkflow

/-! ## Operations that several rules share -/

namespace Pool

variable (P : Pool)

/-- The token of a given id. -/
def get? (id : Nat) : Option Token := P.tokens.find? (·.id = id)

/-- The token that waits at an element. -/
def waitingAt (elementId : String) : Option Token :=
  P.tokens.find? fun t => t.elementId = elementId ∧ t.status = .waiting

/-- A live token stands inside the sub-process. -/
def Busy (subProcess : String) : Prop :=
  ∃ t ∈ P.tokens, t.subProcessInstanceId = some subProcess ∧ t.live

/-- The token starts to wait. -/
def park (t : Token) (condition : WaitCondition) (loopState : Option LoopState) : Pool :=
  P.put { t with status := .waiting, waitingFor := some condition, loopState }

/-- `cancelBoundaryTokensFor`. -/
def clearBoundaries (elementId : String) : Pool :=
  P.cancelAll fun t =>
    t.status = .waiting ∧ t.elementType = .boundaryEvent ∧ t.hostTaskId = some elementId

/-- `cancelHostTaskAndBoundaries`. -/
def clearHost (attachedToRef : String) (firing : Option Nat) : Pool :=
  P.cancelAll fun t => some t.id ≠ firing ∧ t.status = .waiting ∧
    (t.elementId = attachedToRef ∨ t.hostTaskId = some attachedToRef)

/-- `cancelEbgSiblings`. -/
def clearSiblings (winner : Token) : Pool :=
  match winner.parentTokenId with
  | none => P
  | some parent => P.cancelAll fun t =>
      t.id ≠ winner.id ∧ t.parentTokenId = some parent ∧ t.status = .waiting

/-- The cancellation of the remaining children when the completion condition of a parallel
multi-instance activity holds. -/
def clearChildren (parent : Nat) : Pool :=
  P.cancelAll fun t => t.parentTokenId = some parent ∧ t.status = .waiting

/-- The tokens with the given parent have all come to their end. -/
def ChildrenFinished (parent : Nat) : Prop :=
  ∀ t ∈ P.tokens, t.parentTokenId = some parent → t.Finished

/-- `autoResume`. -/
def autoResume : Pool :=
  { P with status := if P.status = some .suspended then some .active else P.status }

/-- `completionRole`. -/
def role (token : Token) (element : BpmnFlowElement) : CompletionRole :=
  match token.parentTokenId.bind P.get? with
  | none => .plain
  | some parent =>
      match element.loopCharacteristics.filter fun _ => parent.elementId = token.elementId with
      | some lc => .child lc
      | none =>
          if (parent.elementType = .intermediateThrowEvent ∨ parent.elementType = .endEvent)
              ∧ element.isForCompensation then .handler parent
          else .plain

end Pool

/-! ## Where new tokens come from -/

inductive Origin where
  /-- The start of the process. -/
  | start
  /-- Moved by a token onto a sequence flow. -/
  | flow (src : Token) (flowId : String)
  /-- At a boundary event, on behalf of a token at the activity. -/
  | boundary (host : Token) (event : BoundaryEventElement)
  /-- At the start event inside the sub-process where `outer` waits. -/
  | inner (outer : Token) (startEventId : String)
  /-- For one item of a multi-instance activity. -/
  | child (parent : Token) (element : BpmnFlowElement)
  /-- At a compensation handler, started by a throw event or a cancel end event. -/
  | handler (source : Token) (element : BpmnFlowElement) (tag : Option String)
  /-- At a catch event behind an event-based gateway. -/
  | branch (gate : Token) (flow : SequenceFlow)

variable (d : ProcessDefinition)

/-- The token is as the engine makes it for this origin. -/
def Made : Origin → Token → Prop
  | .start, t => ∃ instanceId element scopeId, d.getElement d.startEventId = .ok element ∧
      t = newToken t.id instanceId element.id element.type scopeId
  | .flow src flowId, t => ∃ flow element, d.getFlow flowId = .ok flow ∧
      d.getElement flow.targetRef = .ok element ∧
      t = newToken t.id src.instanceId element.id element.type src.scopeId (some flowId) none
        (truthy src.subProcessInstanceId)
  | .boundary host event, t =>
      t = newToken t.id host.instanceId event.id .boundaryEvent host.scopeId none none
        (truthy host.subProcessInstanceId)
  | .inner outer startEventId, t => ∃ instanceId scopeId,
      t = newToken t.id instanceId startEventId .startEvent scopeId none none (some outer.elementId)
  | .child parent element, t => ∃ scopeId,
      t = newToken t.id parent.instanceId element.id element.type scopeId none (some parent.id)
  | .handler source element tag, t => ∃ instanceId,
      t = newToken t.id instanceId element.id element.type source.scopeId none (some source.id) tag
  | .branch gate flow, t => ∃ element, d.getElement flow.targetRef = .ok element ∧
      t = newToken t.id gate.instanceId element.id element.type gate.scopeId (some flow.id)
        (some gate.id)

/-- One token on each of the flows. -/
def onFlows (src : Token) (flows : List String) : List Origin := flows.map (.flow src)

/-- The boundary events that are armed when a token waits at the activity. -/
def ProcessDefinition.armedBoundaries (elementId : String) : List BoundaryEventElement :=
  (d.findBoundariesFor elementId).filter (·.eventDefinition.type ≠ .compensation)

/-- The handlers of the given records, those apart that are not found. -/
def handlersFor (find : String → Option BpmnFlowElement) (source : Token) (tag : Option String)
    (records : List CompensationRecord) : List Origin :=
  records.filterMap fun record => (find record.handlerId).map fun e => .handler source e tag

/-! ## Compensation records -/

/-- The records that a compensation throw event takes out: those of its target, or all. -/
def consumed (records : List CompensationRecord) : Option String → List CompensationRecord
  | some activity => ExecutionContext.latestFirst (records.filter (·.activityId = activity))
  | none => ExecutionContext.latestFirst records

/-- The records that it leaves. -/
def spared (records : List CompensationRecord) : Option String → List CompensationRecord
  | some activity => records.filter (·.activityId ≠ activity)
  | none => []

/-- A compensation throw event finds no record to take out. -/
def BpmnFlowElement.NothingToCompensate (records : List CompensationRecord) : BpmnFlowElement → Prop
  | .intermediateThrowEvent e => e.eventDefinition.type = .compensation →
      consumed records (truthy e.eventDefinition.compensationActivityRef) = []
  | _ => True

/-- The handler that the compensation boundary event of an activity names. -/
def ProcessDefinition.compensationHandler (elementId : String) : Option String :=
  ((d.findBoundariesFor elementId).find? (·.eventDefinition.type = .compensation)).bind
    fun b => truthy b.eventDefinition.compensationActivityRef

/-- `recordCompensationIfNeeded`: a record is filed if the activity names a handler. -/
inductive Recorded (w : Token) (e : BpmnFlowElement) (records : List CompensationRecord) :
    List CompensationRecord → Prop
  | none (h : d.compensationHandler e.id = none) : Recorded w e records records
  | file {r : CompensationRecord} (h : d.compensationHandler e.id = some r.handlerId)
      (hactivity : r.activityId = e.id) (htoken : r.tokenId = w.id) :
      Recorded w e records (records ++ [r])

/-! ## A token passes its element -/

/-- The state a parallel join has when a token arrives. -/
inductive JoinStart (joins : KeyedMap GatewayJoinState.gatewayId) (gatewayId : String)
    (incoming : List SequenceFlow) : ParallelGatewayJoinState → Prop
  | stored {state : ParallelGatewayJoinState} (h : joins.get? gatewayId = some (.parallel state)) :
      JoinStart joins gatewayId incoming state
  | fresh {state : ParallelGatewayJoinState} (h : joins.get? gatewayId = none)
      (hid : state.gatewayId = gatewayId) (harrived : state.arrivedFromFlows = [])
      (hexpected : state.expectedFlows = incoming.map (·.id)) :
      JoinStart joins gatewayId incoming state

/-- The flows on which a token leaves the element it has just completed, and the join states
then. -/
inductive Exits (joins : KeyedMap GatewayJoinState.gatewayId) (t : Token) :
    BpmnFlowElement → List String → KeyedMap GatewayJoinState.gatewayId → Prop
  | startEvent (e : EventElement) : Exits joins t (.startEvent e) e.outgoingFlows joins
  | throwEvent (e : EventElement) : Exits joins t (.intermediateThrowEvent e) e.outgoingFlows joins
  | manualTask (e : TaskElement) (h : e.loopCharacteristics = none) :
      Exits joins t (.manualTask e) e.outgoingFlows joins
  | emptyLoop (e : BpmnFlowElement) {lc : MultiInstanceLoopCharacteristics}
      (h : e.loopCharacteristics = some lc) (hparent : t.parentTokenId = none) :
      Exits joins t e e.outgoingFlows joins
  | exclusive (g : GatewayElement) (hg : g.type = .exclusive) {flow : SequenceFlow}
      (h : flow ∈ d.getOutgoingFlows g.id) : Exits joins t (.gateway g) [flow.id] joins
  | parallelSplit (g : GatewayElement) (hg : g.type = .parallel)
      (hin : (d.getIncomingFlows g.id).length ≤ 1) (hout : d.getOutgoingFlows g.id ≠ []) :
      Exits joins t (.gateway g) ((d.getOutgoingFlows g.id).map (·.id)) joins
  | parallelFires (g : GatewayElement) (hg : g.type = .parallel) {first second : SequenceFlow}
      {rest : List SequenceFlow} (hin : d.getIncomingFlows g.id = first :: second :: rest)
      {state : ParallelGatewayJoinState}
      (hstate : JoinStart joins g.id (d.getIncomingFlows g.id) state)
      (hfires : (evaluateParallelJoin (t.arrivedViaFlowId.getD first.id) state).fires = true) :
      Exits joins t (.gateway g) ((d.getOutgoingFlows g.id).map (·.id)) (joins.erase g.id)
  | parallelWaits (g : GatewayElement) (hg : g.type = .parallel) {first second : SequenceFlow}
      {rest : List SequenceFlow} (hin : d.getIncomingFlows g.id = first :: second :: rest)
      {state : ParallelGatewayJoinState}
      (hstate : JoinStart joins g.id (d.getIncomingFlows g.id) state)
      (hfires : (evaluateParallelJoin (t.arrivedViaFlowId.getD first.id) state).fires = false) :
      Exits joins t (.gateway g) [] (joins.set
        (.parallel (evaluateParallelJoin (t.arrivedViaFlowId.getD first.id) state).updatedState))
  | inclusiveSplit (g : GatewayElement) (hg : g.type = .inclusive)
      (hin : (d.getIncomingFlows g.id).length ≤ 1) {activated : List String} (hne : activated ≠ [])
      (hsub : ∀ flowId ∈ activated, ∃ flow ∈ d.getOutgoingFlows g.id, flow.id = flowId)
      (hjoin : findInclusiveJoinIncoming d activated = none) :
      Exits joins t (.gateway g) activated joins
  | inclusiveSplitJoin (g : GatewayElement) (hg : g.type = .inclusive)
      (hin : (d.getIncomingFlows g.id).length ≤ 1) {activated : List String} (hne : activated ≠ [])
      (hsub : ∀ flowId ∈ activated, ∃ flow ∈ d.getOutgoingFlows g.id, flow.id = flowId)
      {joinId : String} {incoming : List String}
      (hjoin : findInclusiveJoinIncoming d activated = some (joinId, incoming))
      {state : InclusiveGatewayJoinState} (hid : state.gatewayId = joinId)
      (hactivated : state.activatedIncomingFlows = incoming)
      (harrived : state.arrivedFromFlows = []) :
      Exits joins t (.gateway g) activated (joins.set (.inclusive state))
  | inclusiveFires (g : GatewayElement) (hg : g.type = .inclusive) {first second : SequenceFlow}
      {rest : List SequenceFlow} (hin : d.getIncomingFlows g.id = first :: second :: rest)
      {state : InclusiveGatewayJoinState} (hstate : joins.get? g.id = some (.inclusive state))
      (hfires : (evaluateInclusiveJoin (t.arrivedViaFlowId.getD first.id) state).fires = true) :
      Exits joins t (.gateway g) ((d.getOutgoingFlows g.id).map (·.id)) (joins.erase g.id)
  | inclusiveWaits (g : GatewayElement) (hg : g.type = .inclusive) {first second : SequenceFlow}
      {rest : List SequenceFlow} (hin : d.getIncomingFlows g.id = first :: second :: rest)
      {state : InclusiveGatewayJoinState} (hstate : joins.get? g.id = some (.inclusive state))
      (hfires : (evaluateInclusiveJoin (t.arrivedViaFlowId.getD first.id) state).fires = false) :
      Exits joins t (.gateway g) [] (joins.set
        (.inclusive (evaluateInclusiveJoin (t.arrivedViaFlowId.getD first.id) state).updatedState))

/-! ## A token starts to wait -/

/-- The condition of a catch event, where the event is one the engine supports. -/
def EventDefinition.catchCondition (definition : EventDefinition) : Option WaitCondition :=
  match definition.type with
  | .timer => some { type := .timer }
  | .message => some
      { type := .message,
        correlationData := some { messageName := some (definition.messageName.getD "") } }
  | .signal => some
      { type := .signal,
        correlationData := some { signalName := some (definition.signalName.getD "") } }
  | _ => none

/-- The condition of a boundary event, where the event is one the engine supports. -/
def BoundaryEventElement.waitCondition (b : BoundaryEventElement) : Option WaitCondition :=
  let base : CorrelationData := { hostTaskId := some b.attachedToRef }
  match b.eventDefinition.type with
  | .timer => some { type := .timer, correlationData := some base }
  | .message => some
      { type := .message,
        correlationData :=
          some { base with messageName := some (b.eventDefinition.messageName.getD "") } }
  | .signal => some
      { type := .signal,
        correlationData :=
          some { base with signalName := some (b.eventDefinition.signalName.getD "") } }
  | .error | .cancel => some { type := .external, correlationData := some base }
  | _ => none

/-- What a token waits for at its element, the new tokens it brings along and the compensation
records then. -/
inductive Parks (P : Pool) (t : Token) : BpmnFlowElement → WaitCondition → Option LoopState →
    List Origin → List CompensationRecord → Prop
  | serviceTask (e : TaskElement) (h : e.loopCharacteristics = none ∨ t.parentTokenId ≠ none) :
      Parks P t (.serviceTask e) { type := .external } t.loopState
        ((d.armedBoundaries e.id).map (.boundary t)) P.records
  | userTask (e : TaskElement) (h : e.loopCharacteristics = none ∨ t.parentTokenId ≠ none) :
      Parks P t (.userTask e) { type := .userTask } t.loopState
        ((d.armedBoundaries e.id).map (.boundary t)) P.records
  | scriptTask (e : TaskElement) (h : e.loopCharacteristics = none ∨ t.parentTokenId ≠ none) :
      Parks P t (.scriptTask e) { type := .external } t.loopState [] P.records
  | sequential (e : BpmnFlowElement) {lc : MultiInstanceLoopCharacteristics}
      (h : e.loopCharacteristics = some lc) (hparent : t.parentTokenId = none)
      (hseq : lc.isSequential = true) (loopState : LoopState) :
      Parks P t e { type := .external } (some loopState) [.child t e] P.records
  | parallel (e : BpmnFlowElement) {lc : MultiInstanceLoopCharacteristics}
      (h : e.loopCharacteristics = some lc) (hparent : t.parentTokenId = none)
      (hseq : lc.isSequential = false) (n : Nat) :
      Parks P t e { type := .external } t.loopState (List.replicate (n + 1) (.child t e)) P.records
  | catchEvent (e : EventElement) {condition : WaitCondition}
      (h : e.eventDefinition.catchCondition = some condition) :
      Parks P t (.intermediateCatchEvent e) condition t.loopState [] P.records
  | boundaryEvent (b : BoundaryEventElement) {condition : WaitCondition}
      (h : b.waitCondition = some condition) :
      Parks P t (.boundaryEvent b) condition t.loopState [] P.records
  | subProcess (e : BpmnElement) (isTransaction : Bool) (elements : List BpmnFlowElement)
      (flows : List SequenceFlow) (startEventId : String) :
      Parks P t (.subProcess e isTransaction elements flows startEventId) { type := .external }
        t.loopState
        ((if isTransaction then (d.armedBoundaries e.id).map (.boundary t) else []) ++
          [.inner t startEventId]) P.records
  | throwEvent (e : EventElement) (hcomp : e.eventDefinition.type = .compensation)
      (hne : consumed P.records (truthy e.eventDefinition.compensationActivityRef) ≠ []) :
      Parks P t (.intermediateThrowEvent e) { type := .external } t.loopState
        (handlersFor (fun id => d.elements.find? (·.id = id)) t none
          (consumed P.records (truthy e.eventDefinition.compensationActivityRef)))
        (spared P.records (truthy e.eventDefinition.compensationActivityRef))

/-! ## A scope comes to its end -/

/-- `checkSubProcessCompletion`. -/
inductive SubEnd (s : String) (P : Pool) : Pool → List Origin → Prop
  | busy (h : P.Busy s) : SubEnd s P P []
  | orphan (h : ¬ P.Busy s) (houter : P.waitingAt s = none) : SubEnd s P P []
  | complete (h : ¬ P.Busy s) {outer : Token} (houter : P.waitingAt s = some outer)
      {e : BpmnFlowElement} (he : d.getElement s = .ok e) :
      SubEnd s P (P.finish outer) (onFlows outer e.outgoingFlows)

/-- `fireCancelBoundary`. -/
inductive FireCancel (s : String) (outer : Token) (P : Pool) : Pool → List Origin → Prop
  | none (h : (d.findBoundariesFor s).find? (·.eventDefinition.type = .cancel) = none) :
      FireCancel s outer P P []
  | unarmed {b : BoundaryEventElement}
      (h : (d.findBoundariesFor s).find? (·.eventDefinition.type = .cancel) = some b)
      (hwaiting : P.waitingAt b.id = Option.none) : FireCancel s outer P P []
  | fire {b : BoundaryEventElement}
      (h : (d.findBoundariesFor s).find? (·.eventDefinition.type = .cancel) = some b)
      {w : Token} (hwaiting : P.waitingAt b.id = some w) :
      FireCancel s outer P ((P.finish w).cancelOne outer) (onFlows w b.outgoingFlows)

/-- The pool after a cancel end event inside transaction `s` has cancelled what is live there. -/
def Pool.clearScope (P : Pool) (s : String) (t : Token) : Pool :=
  { P.cancelAll fun x => x.id ≠ t.id ∧ x.subProcessInstanceId = some s ∧ x.live with records := [] }

/-- `handleTransactionCancel`. -/
inductive TxCancel (s : String) (t : Token) (P : Pool) : Pool → List Origin → Prop
  | compensate (h : P.records ≠ []) :
      TxCancel s t P (P.clearScope s t) (handlersFor (findElementInTree d.elements) t (some s)
        (ExecutionContext.latestFirst P.records))
  | orphan (h : P.records = []) (houter : (P.clearScope s t).waitingAt s = none) :
      TxCancel s t P (P.clearScope s t) []
  | fire (h : P.records = []) {outer : Token}
      (houter : (P.clearScope s t).waitingAt s = some outer) {Q : Pool} {origins : List Origin}
      (hfire : FireCancel d s outer (P.clearScope s t) Q origins) : TxCancel s t P Q origins

/-- `handleEndEvent`, when the token has been completed. -/
inductive Ends (t : Token) (P : Pool) : EventElement → Pool → List Origin → Prop
  | cancelTop (e : EventElement) (he : e.eventDefinition.type = .cancel)
      (htag : truthy t.subProcessInstanceId = none) : Ends t P e P []
  | cancel (e : EventElement) (he : e.eventDefinition.type = .cancel) {s : String}
      (htag : truthy t.subProcessInstanceId = some s) {Q : Pool} {origins : List Origin}
      (h : TxCancel d s t P Q origins) : Ends t P e Q origins
  | terminate (e : EventElement) (he : e.eventDefinition.type = .terminate) :
      Ends t P e
        { P.cancelAll fun x => x.id ≠ t.id ∧ x.live with status := some .completed } []
  | inner (e : EventElement) (hc : e.eventDefinition.type ≠ .cancel)
      (ht : e.eventDefinition.type ≠ .terminate) {s : String}
      (htag : truthy t.subProcessInstanceId = some s) {Q : Pool} {origins : List Origin}
      (h : SubEnd d s P Q origins) : Ends t P e Q origins
  | last (e : EventElement) (hc : e.eventDefinition.type ≠ .cancel)
      (ht : e.eventDefinition.type ≠ .terminate) (htag : truthy t.subProcessInstanceId = none)
      (hlive : ∀ x ∈ P.tokens, x.live = false) (hpending : P.pending = []) :
      Ends t P e { P with status := some .completed } []
  | more (e : EventElement) (hc : e.eventDefinition.type ≠ .cancel)
      (ht : e.eventDefinition.type ≠ .terminate) (htag : truthy t.subProcessInstanceId = none)
      (h : ¬ ((∀ x ∈ P.tokens, x.live = false) ∧ P.pending = [])) : Ends t P e P []

/-! ## Children and handlers complete -/

/-- `completeMultiInstance`, as far as it changes the tokens that are there. -/
def Pool.closeLoop (P : Pool) (parent : Token) (elementId : String) : Pool :=
  (P.finish parent).clearBoundaries elementId

/-- `handleMultiInstanceChildCompletion`. -/
inductive ChildDone (c : Token) (e : BpmnFlowElement) (lc : MultiInstanceLoopCharacteristics)
    (P : Pool) : Pool → List Origin → Prop
  | orphan (h : c.parentTokenId.bind P.get? = none) : ChildDone c e lc P P []
  | noLoop {p : Token} (hp : c.parentTokenId.bind P.get? = some p) (hseq : lc.isSequential = true)
      (hloop : p.loopState = none) : ChildDone c e lc P (P.finish c) []
  | next {p : Token} (hp : c.parentTokenId.bind P.get? = some p) (hseq : lc.isSequential = true)
      (hloop : p.loopState.isSome) (loopState : LoopState) :
      ChildDone c e lc P ((P.finish c).put { p with loopState := some loopState }) [.child p e]
  | lastItem {p : Token} (hp : c.parentTokenId.bind P.get? = some p) (hseq : lc.isSequential = true)
      (hloop : p.loopState.isSome) :
      ChildDone c e lc P ((P.finish c).closeLoop p e.id) (onFlows p e.outgoingFlows)
  | condition {p : Token} (hp : c.parentTokenId.bind P.get? = some p)
      (hseq : lc.isSequential = false) (hcond : truthy lc.completionCondition ≠ none) :
      ChildDone c e lc P
        (((P.finish c).clearChildren p.id).closeLoop p e.id) (onFlows p e.outgoingFlows)
  | allDone {p : Token} (hp : c.parentTokenId.bind P.get? = some p)
      (hseq : lc.isSequential = false) (hall : (P.finish c).ChildrenFinished p.id) :
      ChildDone c e lc P ((P.finish c).closeLoop p e.id) (onFlows p e.outgoingFlows)
  | wait {p : Token} (hp : c.parentTokenId.bind P.get? = some p)
      (hseq : lc.isSequential = false) (hall : ¬ (P.finish c).ChildrenFinished p.id) :
      ChildDone c e lc P (P.finish c) []

/-- `handleCompensationHandlerCompletion`. -/
inductive HandlerDone (h throwToken : Token) (P : Pool) : Pool → List Origin → Prop
  | wait (hall : ¬ (P.finish h).ChildrenFinished throwToken.id) :
      HandlerDone h throwToken P (P.finish h) []
  | orphan (hall : (P.finish h).ChildrenFinished throwToken.id) {e : BpmnFlowElement}
      (he : d.getElement throwToken.elementId = .ok e) (hc : e.isCancelEnd = true) {s : String}
      (htag : truthy throwToken.subProcessInstanceId = some s)
      (houter : (P.finish h).waitingAt s = none) : HandlerDone h throwToken P (P.finish h) []
  | fire (hall : (P.finish h).ChildrenFinished throwToken.id) {e : BpmnFlowElement}
      (he : d.getElement throwToken.elementId = .ok e) (hc : e.isCancelEnd = true) {s : String}
      (htag : truthy throwToken.subProcessInstanceId = some s) {outer : Token}
      (houter : (P.finish h).waitingAt s = some outer) {Q : Pool} {origins : List Origin}
      (hfire : FireCancel d s outer (P.finish h) Q origins) : HandlerDone h throwToken P Q origins
  | advance (hall : (P.finish h).ChildrenFinished throwToken.id) {e : BpmnFlowElement}
      (he : d.getElement throwToken.elementId = .ok e)
      (hc : e.isCancelEnd = false ∨ truthy throwToken.subProcessInstanceId = none) :
      HandlerDone h throwToken P ((P.finish h).finish throwToken)
        (onFlows throwToken e.outgoingFlows)

/-! ## The rules -/

/-- `processToken`, on the pool from whose queue the token was taken. -/
inductive Turn (P : Pool) (t : Token) : Pool → List Origin → Prop
  | pass {e : BpmnFlowElement} (he : d.getElement t.elementId = .ok e) {flows : List String}
      {joins : KeyedMap GatewayJoinState.gatewayId} (h : Exits d P.joins t e flows joins)
      (hnone : e.NothingToCompensate P.records) :
      Turn P t { P.finish t with joins } (onFlows t flows)
  | park {e : BpmnFlowElement} (he : d.getElement t.elementId = .ok e) {condition : WaitCondition}
      {loopState : Option LoopState} {origins : List Origin} {records : List CompensationRecord}
      (h : Parks d P t e condition loopState origins records) :
      Turn P t { P.park t condition loopState with records } origins
  | branch {g : GatewayElement} (he : d.getElement t.elementId = .ok (.gateway g))
      (hg : g.type = .eventBased) (hvalid : validateEventBasedGateway g d = .ok ()) :
      Turn P t (P.finish t) ((d.getOutgoingFlows g.id).map (.branch t))
  | ends {e : EventElement} (he : d.getElement t.elementId = .ok (.endEvent e)) {Q : Pool}
      {origins : List Origin} (h : Ends d t (P.finish t) e Q origins) : Turn P t Q origins
  | child {e : TaskElement} (he : d.getElement t.elementId = .ok (.manualTask e))
      {lc : MultiInstanceLoopCharacteristics} (hlc : e.loopCharacteristics = some lc)
      (hparent : t.parentTokenId ≠ none) {Q : Pool} {origins : List Origin}
      (h : ChildDone t (.manualTask e) lc P Q origins) : Turn P t Q origins

/-- `handleCompleteTask`, on a waiting token. -/
inductive Complete (P : Pool) (w : Token) : Pool → List Origin → Prop
  | child {e : BpmnFlowElement} (he : d.getElement w.elementId = .ok e)
      {lc : MultiInstanceLoopCharacteristics} (hrole : P.role w e = .child lc) {Q : Pool}
      {origins : List Origin} (h : ChildDone w e lc P.autoResume Q origins) :
      Complete P w Q origins
  | handler {e : BpmnFlowElement} (he : d.getElement w.elementId = .ok e) {throwToken : Token}
      (hrole : P.role w e = .handler throwToken) {Q : Pool} {origins : List Origin}
      (h : HandlerDone d w throwToken P.autoResume Q origins) : Complete P w Q origins
  | plain {e : BpmnFlowElement} (he : d.getElement w.elementId = .ok e)
      (hrole : P.role w e = .plain) {records : List CompensationRecord}
      (hrecords : Recorded d w e P.records records) :
      Complete P w { (P.autoResume.clearBoundaries w.elementId).finish w with records }
        (onFlows w e.outgoingFlows)

/-- A target of a message or a signal is resumed. -/
inductive Resume (P : Pool) (w : Token) : Pool → List Origin → Prop
  | mk {e : BpmnFlowElement} (he : d.getElement w.elementId = .ok e) :
      Resume P w ((P.finish w).clearSiblings w) (onFlows w e.outgoingFlows)

/-- The command handlers, those apart that resume the targets of a message or a signal. -/
inductive Deed (P : Pool) : EngineCommand → Pool → List Origin → Prop
  | startProcess (vars : Option Variables) (correlationKey businessKey : Option String) :
      Deed P (.startProcess vars correlationKey businessKey)
        { P with status := some .active } [.start]
  | completeServiceTask (vars : Option Variables) {w : Token} (hw : w ∈ P.tokens)
      (hwaiting : w.status = .waiting) {Q : Pool} {origins : List Origin}
      (h : Complete d P w Q origins) : Deed P (.completeServiceTask w.id vars) Q origins
  | completeUserTask (completedBy : String) (vars : Option Variables) {w : Token}
      (hw : w ∈ P.tokens) (hwaiting : w.status = .waiting) {Q : Pool} {origins : List Origin}
      (h : Complete d P w Q origins) : Deed P (.completeUserTask w.id completedBy vars) Q origins
  | failCaught {code : String} (message : String) {w : Token} (hw : w ∈ P.tokens)
      (hwaiting : w.status = .waiting) {b : BoundaryEventElement}
      (hb : d.findMatchingErrorBoundary w.elementId code = some b) :
      Deed P (.failServiceTask w.id code message)
        ((P.cancelOne w).clearHost w.elementId none) (onFlows w b.outgoingFlows)
  | failUncaught {code : String} (message : String) {w : Token} (hw : w ∈ P.tokens)
      (hwaiting : w.status = .waiting) (hb : d.findMatchingErrorBoundary w.elementId code = none) :
      Deed P (.failServiceTask w.id code message) { P with status := some .suspended } []
  | fireInterrupting {w : Token} (hw : w ∈ P.tokens) (hwaiting : w.status = .waiting)
      (htype : w.elementType = .boundaryEvent) {b : BoundaryEventElement}
      (he : d.getElement w.elementId = .ok (.boundaryEvent b)) (hb : b.cancelActivity = true) :
      Deed P (.fireTimer w.id) ((P.finish w).clearHost b.attachedToRef (some w.id))
        (onFlows w b.outgoingFlows)
  | fireBoundary {w : Token} (hw : w ∈ P.tokens) (hwaiting : w.status = .waiting)
      (htype : w.elementType = .boundaryEvent) {e : BpmnFlowElement}
      (he : d.getElement w.elementId = .ok e)
      (hb : ∀ b, e = .boundaryEvent b → b.cancelActivity = false) :
      Deed P (.fireTimer w.id) (P.finish w) (onFlows w e.outgoingFlows)
  | fireCatch {w : Token} (hw : w ∈ P.tokens) (hwaiting : w.status = .waiting)
      (htype : w.elementType ≠ .boundaryEvent) {Q : Pool} {origins : List Origin}
      (h : Complete d (P.clearSiblings w) w Q origins) : Deed P (.fireTimer w.id) Q origins
  | suspendInstance (h : P.status = some .active) :
      Deed P .suspendInstance { P with status := some .suspended } []
  | resumeInstance (h : P.status = some .suspended) :
      Deed P .resumeInstance { P with status := some .active } []
  | cancelInstance :
      Deed P .cancelInstance { P.cancelAll Token.live with status := some .terminated } []

/-- The targets of a message or a signal are resumed one after the other; one that an earlier target
has cancelled is passed over. -/
inductive Resumes : List Token → Pool → Pool → Prop
  | nil (P : Pool) : Resumes [] P P
  | skip {w : Token} {rest : List Token} {P P' : Pool} {x : Token} (hx : P.get? w.id = some x)
      (hwaiting : x.status ≠ .waiting) (h : Resumes rest P P') : Resumes (w :: rest) P P'
  | resume {w : Token} {rest : List Token} {P P' : Pool} (hw : w ∈ P.tokens)
      (hwaiting : w.status = .waiting) {Q mid : Pool} {origins : List Origin}
      (hresume : Resume d P w Q origins) (hmade : Spawned (Made d) origins Q mid)
      (h : Resumes rest mid P') : Resumes (w :: rest) P P'

/-- A token that a message of the given name resumes. -/
def Token.awaitsMessage (name : String) (t : Token) : Bool :=
  t.status = .waiting && (t.waitsFor .message && t.messageName = some name)

/-- A token that a signal of the given name resumes. -/
def Token.awaitsSignal (name : String) (t : Token) : Bool :=
  t.status = .waiting && (t.waitsFor .signal && t.signalName = some name)

/-- A command handler, up to its call of the run loop. -/
inductive Commanded (P : Pool) : EngineCommand → Pool → Prop
  | deed {command : EngineCommand} {Q P' : Pool} {origins : List Origin}
      (h : Deed d P command Q origins) (hmade : Spawned (Made d) origins Q P') :
      Commanded P command P'
  | deliverMessage (name : String) (vars : Option Variables) {P' : Pool}
      (h : Resumes d (P.tokens.filter (Token.awaitsMessage name)) P P') :
      Commanded P (.deliverMessage name vars) P'
  | broadcastSignal (name : String) (vars : Option Variables) {P' : Pool}
      (h : Resumes d (P.tokens.filter (Token.awaitsSignal name)) P P') :
      Commanded P (.broadcastSignal name vars) P'

/-! ## Conditions on commands -/

/-- `C` holds of the token that the command completes, and of the pool then.  A timer cancels the
token's siblings first. -/
def EngineCommand.Completing (C : Pool → Token → Prop) (P : Pool) : EngineCommand → Prop
  | .completeServiceTask id _ | .completeUserTask id _ _ => ∀ w ∈ P.tokens, w.id = id → C P w
  | .fireTimer id => ∀ w ∈ P.tokens, w.id = id → w.elementType ≠ .boundaryEvent →
      C (P.clearSiblings w) w
  | _ => True

instance (C : Pool → Token → Prop) [∀ P w, Decidable (C P w)] (P : Pool) (command : EngineCommand) :
    Decidable (command.Completing C P) := by
  unfold EngineCommand.Completing
  split <;> infer_instance

end NexusWorkflow
