import NexusWorkflow.Model.Parser
import NexusWorkflow.Model.Http
import NexusWorkflow.Run.Replay

/-!
# Small diagrams

Shorthands for the elements of the diagrams on which the results are tried out.  An
element leaves on all flows that have it as their source.
-/

namespace NexusWorkflow

def SequenceFlow.between (id sourceRef targetRef : String) : SequenceFlow :=
  { id, sourceRef, targetRef }

namespace Diagram

variable (flows : List SequenceFlow)

def node (id : String) : BpmnElement where
  id
  incomingFlows := (flows.filter (·.targetRef = id)).map (·.id)
  outgoingFlows := (flows.filter (·.sourceRef = id)).map (·.id)

def start (id : String) : BpmnFlowElement :=
  .startEvent { toBpmnElement := node flows id, eventDefinition := { type := .none } }

def finish (id : String) (type : EventDefinitionType) : BpmnFlowElement :=
  .endEvent { toBpmnElement := node flows id, eventDefinition := { type } }

def userTask (id : String) : BpmnFlowElement := .userTask { toBpmnElement := node flows id }

def serviceTask (id : String) : BpmnFlowElement := .serviceTask { toBpmnElement := node flows id }

def catchEvent (id : String) (eventDefinition : EventDefinition) : BpmnFlowElement :=
  .intermediateCatchEvent { toBpmnElement := node flows id, eventDefinition }

def gateway (id : String) (type : GatewayType) : GatewayElement :=
  { toBpmnElement := node flows id, type }

def boundary (id attachedToRef : String) (eventDefinition : EventDefinition)
    (cancelActivity : Bool := true) : BpmnFlowElement :=
  .boundaryEvent { toBpmnElement := node flows id, attachedToRef, cancelActivity, eventDefinition }

/-- A user task for every item of a collection, all at once. -/
def userTasks (id : String) : BpmnFlowElement :=
  .userTask { toBpmnElement := node flows id,
              loopCharacteristics := some { isSequential := false, inputCollection := "items" } }

/-- A user task for every item of a collection, one after the other. -/
def userTasksInTurn (id : String) : BpmnFlowElement :=
  .userTask { toBpmnElement := node flows id,
              loopCharacteristics := some { isSequential := true, inputCollection := "items" } }

/-- A sub-process with the given elements inside; `flows` are those of the level around it. -/
def subProcess (id : String) (isTransaction : Bool) (inside : List SequenceFlow)
    (startEventId : String) (elements : List BpmnFlowElement) : BpmnFlowElement :=
  .subProcess (node flows id) isTransaction elements inside startEventId

/-- The process of the given elements and flows. -/
def definition (elements : List BpmnFlowElement) : ProcessDefinition :=
  assemble "process" elements flows

def errandFlows : List SequenceFlow :=
  [.between "toFetch" "start" "fetch", .between "toCheck" "fetch" "check",
    .between "toEnd" "check" "end"]

def inquiryFlows : List SequenceFlow :=
  [.between "toAsk" "start" "ask", .between "toAnswer" "ask" "answer",
    .between "toEnd" "answer" "end"]

/-- A service task, and then a message is waited for. -/
def inquiry : ProcessDefinition :=
  definition inquiryFlows
    [start inquiryFlows "start", serviceTask inquiryFlows "ask",
      catchEvent inquiryFlows "answer" { type := .message, messageName := some "answer" },
      finish inquiryFlows "end" .none]

def interviewFlows : List SequenceFlow :=
  [.between "toAsk" "start" "ask", .between "toCheck" "ask" "check", .between "toEnd" "check" "end"]

/-- Two user tasks, one after the other. -/
def interview : ProcessDefinition :=
  definition interviewFlows
    [start interviewFlows "start", userTask interviewFlows "ask", userTask interviewFlows "check",
      finish interviewFlows "end" .none]

/-- A service task, and then a user task. -/
def errand : ProcessDefinition :=
  definition errandFlows
    [start errandFlows "start", serviceTask errandFlows "fetch", userTask errandFlows "check",
      finish errandFlows "end" .none]

def loopInside : List SequenceFlow :=
  [.between "toSplit" "inStart" "split", .between "toTasks" "split" "tasks",
    .between "toAbort" "split" "abort", .between "toDone" "tasks" "done"]

def loopAround : List SequenceFlow :=
  [.between "toTx" "start" "tx", .between "onCancel" "cancelled" "fallback"]

/-- A transaction with a multi-instance user task beside a cancel end event. -/
def cancelledLoop : ProcessDefinition :=
  definition loopAround
    [start loopAround "start",
      subProcess loopAround "tx" true loopInside "inStart"
        [start loopInside "inStart", .gateway (gateway loopInside "split" .parallel),
          userTasks loopInside "tasks", finish loopInside "abort" .cancel,
          finish loopInside "done" .none],
      boundary loopAround "cancelled" "tx" { type := .cancel }, userTask loopAround "fallback"]

/-! ## Documents -/

/-- An element without text. -/
def tag (name : String) (attributes : List (String × String)) (children : List XmlElement) :
    XmlElement := .element name attributes (.text "") children

def incoming (flowId : String) : XmlElement := .element "incoming" [] (.text flowId) []

def outgoing (flowId : String) : XmlElement := .element "outgoing" [] (.text flowId) []

def flowTag (id sourceRef targetRef : String) : XmlElement :=
  tag "sequenceFlow" [("id", id), ("sourceRef", sourceRef), ("targetRef", targetRef)] []

end Diagram

/-- An evaluator for which every expression is true. -/
def always : String → Variables → Except EngineError Value := fun _ _ => .ok (.bool true)

/-- An evaluator for which every expression is a collection of two items. -/
def twoItems : String → Variables → Except EngineError Value :=
  fun _ _ => .ok (.array [.null, .null])

/-! ## Runs on a store -/

/-- The store when the process of the diagram has just been started. -/
def Store.started (d : ProcessDefinition) : Option Store := do
  let result ← (execute d 10 (.startProcess none none none) none (stopped always 0)).toOption
  ((∅ : Store).executeTransaction (computeStoreOps true none none result.newState)).toOption

/-- The first call of the process of the diagram. -/
def ProcessDefinition.opening (d : ProcessDefinition)
    (evaluate : String → Variables → Except EngineError Value) : Option EngineResult :=
  (execute d 10 (.startProcess none none none) none (stopped evaluate 0)).toOption

/-- A first call on which a test succeeds. -/
theorem exists_opening (d : ProcessDefinition)
    (evaluate : String → Variables → Except EngineError Value) (test : EngineResult → Bool)
    (h : (d.opening evaluate).any test = true) :
    ∃ result, Call d [] (.startProcess none none none) none (stopped evaluate 0) ∧
      execute d 10 (.startProcess none none none) none (stopped evaluate 0) = .ok result ∧
      test result = true := by
  unfold ProcessDefinition.opening at h
  cases hr : execute d 10 (.startProcess none none none) none (stopped evaluate 0) with
  | error e => simp [hr, Except.toOption] at h
  | ok result =>
    rw [hr] at h
    exact ⟨result, .start none none none _, rfl, h⟩

/-- The store, and the next id, when a request has just started the process of the diagram. -/
def Store.opened (d : ProcessDefinition)
    (evaluate : String → Variables → Except EngineError Value) : Option (Store × Nat) := do
  let result ← d.opening evaluate
  let store ← ((∅ : Store).executeTransaction (computeStoreOps true none none result.newState ++
    buildUserTaskCreationOps 0 result.events d)).toOption
  pure (store, result.nextId)

/-- A worker completes the task of a token. -/
def workerCompletes (tokenId firstId : Nat) : Cycle where
  caller := .worker
  admits _ := true
  command := .completeServiceTask tokenId none
  goesOn := rfl
  fuel := 10
  options := stopped always firstId
  order := .inserted
  firstTaskId := 0

/-- A user completes the task of a token, by a request. -/
def requestCompletes (tokenId firstId : Nat) : Cycle where
  caller := .request fun _ => pure []
  admits _ := true
  command := .completeUserTask tokenId "user" none
  goesOn := rfl
  fuel := 10
  options := stopped always firstId
  order := .inserted
  firstTaskId := 0

/-- A user completes a task, by a request that closes its record. -/
def requestCloses (task : UserTaskRecord) (firstId : Nat) : Cycle :=
  { requestCompletes task.tokenId firstId with
    caller := .request (closesTask task 0), firstTaskId := 1 }

/-- A request delivers a message. -/
def requestDelivers (messageName : String) (firstId : Nat) : Cycle where
  caller := .request fun _ => pure []
  admits _ := true
  command := .deliverMessage messageName none
  goesOn := rfl
  fuel := 10
  options := stopped always firstId
  order := .inserted
  firstTaskId := 0

/-- What a request finds when there is one definition and the clock is stopped; each of its cycles
has ten ids. -/
def ProcessDefinition.surroundings (d : ProcessDefinition) (firstId : Nat) : Surroundings where
  definitions := fun _ _ => some d
  latest := fun _ => some d
  subscriptions := fun rows => rows
  perm_subscriptions := .refl
  userTasks := fun rows => rows
  perm_userTasks := .refl
  circumstances n :=
    { fuel := 10, options := stopped always (firstId + 10 * n), order := .inserted, firstTaskId := 1
      now := 0 }

/-- The circumstances of the n-th job. -/
def circumstances (n : Nat) : Circumstances where
  fuel := 10
  options := stopped always (10 * n)
  order := .inserted
  firstTaskId := n
  now := n

end NexusWorkflow
