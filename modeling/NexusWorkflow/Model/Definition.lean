import NexusWorkflow.Model.Types

/-!
# Errors and definition traversal

The errors a cycle can end in, and the searches of `ExecutionEngine.ts` through the tree of elements
and flows.  Four of them look for something on one level of the tree and, where that level has
nothing, in the nested sub-processes one after the other: `searchTree`.
-/

namespace NexusWorkflow

inductive EngineError where
  | definitionError (message : String)
  | runtimeError (message : String) (instanceId : Option Nat)
  /-- A JavaScript `TypeError`. -/
  | typeError (message : String)
  /-- Whatever the expression evaluator throws. -/
  | expressionError (message : String)
  /-- The loop was still running when the fuel was used up: no verdict about the program. -/
  | outOfFuel
  deriving DecidableEq

namespace EngineError

def runtime (message : String) (instanceId : Option Nat := none) : EngineError :=
  .runtimeError message instanceId

end EngineError

/-! ## Searching level by level -/

section Search

variable {α : Type} (query : List BpmnFlowElement → List SequenceFlow → Option α)

mutual

/-- The first answer inside a sub-process, its own level before the nested ones. -/
def BpmnFlowElement.search : BpmnFlowElement → Option α
  | .subProcess _ _ elements flows _ => (query elements flows).or (searchNested elements)
  | _ => none

/-- The first answer inside the sub-processes of a level. -/
def searchNested : List BpmnFlowElement → Option α
  | [] => none
  | e :: rest => (e.search).or (searchNested rest)

end

/-- The answer on this level, or else the first one in the nested sub-processes. -/
def searchTree (elements : List BpmnFlowElement) (flows : List SequenceFlow) : Option α :=
  (query elements flows).or (searchNested query elements)

end Search

/-- A list as an answer: the empty list is none. -/
def nonEmpty {α : Type} (l : List α) : Option (List α) := if l.isEmpty then none else some l

/-- The sequence flow of a given id. -/
def findFlowInTree (elements : List BpmnFlowElement) (flows : List SequenceFlow) (id : String) :
    Option SequenceFlow :=
  searchTree (fun _ flows => flows.find? (·.id = id)) elements flows

/-- All flows with the given source, on the first level that has any. -/
def findFlowsBySource (elements : List BpmnFlowElement) (flows : List SequenceFlow)
    (elementId : String) : List SequenceFlow :=
  (searchTree (fun _ flows => nonEmpty (flows.filter (·.sourceRef = elementId)))
    elements flows).getD []

/-- All flows with the given target, on the first level that has any. -/
def findFlowsByTarget (elements : List BpmnFlowElement) (flows : List SequenceFlow)
    (elementId : String) : List SequenceFlow :=
  (searchTree (fun _ flows => nonEmpty (flows.filter (·.targetRef = elementId)))
    elements flows).getD []

/-- The boundary event, if the element is one attached to the given activity. -/
def BpmnFlowElement.boundaryOf (taskElementId : String) :
    BpmnFlowElement → Option BoundaryEventElement
  | .boundaryEvent b => if b.attachedToRef = taskElementId then some b else none
  | _ => none

/-- All boundary events attached to the given activity, on the first level that has any. -/
def findBoundariesInTree (elements : List BpmnFlowElement) (taskElementId : String) :
    List BoundaryEventElement :=
  (searchTree (fun elements _ => nonEmpty (elements.filterMap (·.boundaryOf taskElementId)))
    elements []).getD []

/-! ## Finding an element -/

mutual

/-- The element of a given id inside a sub-process. -/
def BpmnFlowElement.findInside : BpmnFlowElement → String → Option BpmnFlowElement
  | .subProcess _ _ elements _ _, id => findElementInTree elements id
  | _, _ => none

/-- The first element of a given id: each sub-process is searched before its right neighbour. -/
def findElementInTree : List BpmnFlowElement → String → Option BpmnFlowElement
  | [], _ => none
  | e :: rest, id => if e.id = id then some e else (e.findInside id).or (findElementInTree rest id)

end

/-! ## The searches of a definition -/

namespace ProcessDefinition

variable (d : ProcessDefinition)

def findBoundariesFor (taskElementId : String) : List BoundaryEventElement :=
  findBoundariesInTree d.elements taskElementId

def getElement (id : String) : Except EngineError BpmnFlowElement :=
  match findElementInTree d.elements id with
  | some element => .ok element
  | none => .error (.definitionError s!"Element \"{id}\" not found in definition \"{d.id}\"")

def getFlow (id : String) : Except EngineError SequenceFlow :=
  match findFlowInTree d.elements d.sequenceFlows id with
  | some flow => .ok flow
  | none => .error (.definitionError s!"Sequence flow \"{id}\" not found in definition \"{d.id}\"")

def getOutgoingFlows (elementId : String) : List SequenceFlow :=
  findFlowsBySource d.elements d.sequenceFlows elementId

def getIncomingFlows (elementId : String) : List SequenceFlow :=
  findFlowsByTarget d.elements d.sequenceFlows elementId

/-- The best error boundary on a task for an error code: the exact code first, then a catch-all
without a code. -/
def findMatchingErrorBoundary (taskElementId errorCode : String) : Option BoundaryEventElement :=
  let boundaries := (d.findBoundariesFor taskElementId).filter (·.eventDefinition.type = .error)
  (boundaries.find? (·.eventDefinition.errorCode = some errorCode)).or
    (boundaries.find? fun b => (truthy b.eventDefinition.errorCode).isNone)

end ProcessDefinition

end NexusWorkflow
