import NexusWorkflow.Model.Definition

/-!
# Reading a diagram

`parseBpmn`, from what the XML library makes of the document: the elements and flows of every level,
the validation, and the definition made of them.
-/

namespace NexusWorkflow

/-! ## What the XML library returns -/

/-- The text of an element; a number is given as it prints. -/
inductive XmlText where
  | text (s : String)
  | bool (b : Bool)

def XmlText.asString : XmlText → String
  | .text s => s
  | .bool b => toString b

/-- An element of the document, without name space prefixes. -/
inductive XmlElement where
  | element (tag : String) (attributes : List (String × String)) (text : XmlText)
      (children : List XmlElement)

namespace XmlElement

def tag : XmlElement → String
  | element tag _ _ _ => tag

def attributes : XmlElement → List (String × String)
  | element _ attributes _ _ => attributes

def text : XmlElement → XmlText
  | element _ _ text _ => text

def children : XmlElement → List XmlElement
  | element _ _ _ children => children

/-- The library returns the bare text, not an object. -/
def isPlain (raw : XmlElement) : Bool := raw.attributes.isEmpty && raw.children.isEmpty

/-- `raw['@_name']`. -/
def attr (raw : XmlElement) (name : String) : Option String :=
  (raw.attributes.find? (·.1 = name)).map (·.2)

/-- `raw[key]` for a key whose value is always an array. -/
def all (raw : XmlElement) (key : String) : List XmlElement := raw.children.filter (·.tag = key)

/-- `String(raw)`. -/
def asString (raw : XmlElement) : String :=
  if raw.isPlain then raw.text.asString else "[object Object]"

def isTruthy (raw : XmlElement) : Bool :=
  !raw.isPlain || match raw.text with
    | .text s => s ≠ "" && s ≠ "0"
    | .bool b => b

end XmlElement

/-- `raw[key]` for any other key, if it is truthy.  Several elements make an array, in which no
property is found. -/
def valueAt (raws : List XmlElement) (key : String) : Option XmlElement :=
  match raws.filter (·.tag = key) with
  | [] => none
  | [raw] => if raw.isTruthy then some raw else none
  | _ => some (.element key [] (.text "") [])

/-- The white space that `trim` removes. -/
def isSpace (c : Char) : Bool :=
  c.toNat ∈ [0x09, 0x0a, 0x0b, 0x0c, 0x0d, 0x20, 0xa0, 0x1680, 0x2028, 0x2029, 0x202f, 0x205f,
    0x3000, 0xfeff] || 0x2000 ≤ c.toNat && c.toNat ≤ 0x200a

def trim (s : String) : String := String.ofList ((s.toList.dropWhile isSpace).rdropWhile isSpace)

/-- `extractText` of an element: a bare boolean has no text. -/
def extractText (raw : XmlElement) : Option String :=
  match raw.text with
  | .text s => truthy (some (trim s))
  | .bool b => if raw.isPlain then none else some (toString b)

/-- `extractText(raw[key])` for a key whose value is an array only if there are several. -/
def textAt (raw : XmlElement) (key : String) : Option String :=
  match raw.all key with
  | [value] => extractText value
  | _ => none

/-! ## Elements -/

def baseElement (raw : XmlElement) : BpmnElement where
  id := (raw.attr "id").getD ""
  name := raw.attr "name"
  incomingFlows := (raw.all "incoming").map (·.asString)
  outgoingFlows := (raw.all "outgoing").map (·.asString)

def parseTimerDefinition (timerDef : XmlElement) : EventDefinition where
  type := .timer
  timerExpression := ((textAt timerDef "timeDuration").or ((textAt timerDef "timeDate").or
    (textAt timerDef "timeCycle"))).getD ""

/-- `hasKey` asks for a key of an object, and a bare text is none. -/
def parseEventDefinition (raw : XmlElement) : Except EngineError EventDefinition :=
  if raw.isPlain then
    .error (.typeError
      s!"Cannot use 'in' operator to search for 'timerEventDefinition' in {raw.asString}")
  else if let some timerDef := (raw.all "timerEventDefinition").head? then
    .ok (parseTimerDefinition timerDef)
  else if let some msgDef := (raw.all "messageEventDefinition").head? then
    .ok { type := .message, messageName := (msgDef.attr "messageRef").getD "" }
  else if let some sigDef := (raw.all "signalEventDefinition").head? then
    .ok { type := .signal, signalName := (sigDef.attr "signalRef").getD "" }
  else if let some errDef := (raw.all "errorEventDefinition").head? then
    .ok { type := .error, errorCode := (errDef.attr "errorRef").getD "" }
  else if raw.all "terminateEventDefinition" ≠ [] then .ok { type := .terminate }
  else if let some compDef := (raw.all "compensateEventDefinition").head? then
    .ok { type := .compensation
          compensationActivityRef := truthy (compDef.attr "activityRef") }
  else if raw.all "cancelEventDefinition" ≠ [] then .ok { type := .cancel }
  else .ok { type := .none }

def eventElement (raw : XmlElement) : Except EngineError EventElement := do
  let eventDefinition ← parseEventDefinition raw
  .ok { baseElement raw with eventDefinition }

/-- `INPUT_NAME`. -/
def isInputName (name : String) : Bool :=
  match name.toList with
  | [] => false
  | c :: rest => (c.isAlpha || c ∈ ['_', '$']) && rest.all fun c => c.isAlphanum || c ∈ ['_', '$']

/-- `INPUT_TYPES`. -/
def inputTypes : List String := ["string", "number", "boolean"]

/-- Invalid and duplicate names are skipped.  Without inputs there is no field, here an empty
list. -/
def parseInputs (raw : XmlElement) : List ProcessInput :=
  match raw.all "extensionElements" with
  | [extension] => (extension.all "input").foldl (fun inputs entry =>
      let name := (entry.attr "name").getD ""
      if isInputName name ∧ name ∉ inputs.map (·.name) then
        inputs ++ [{ name, hint := entry.attr "hint"
                     type := (entry.attr "type").filter (· ∈ inputTypes) }]
      else inputs) []
  | _ => []

def parseStartEvent (raw : XmlElement) : Except EngineError BpmnFlowElement := do
  let e ← eventElement raw
  .ok (.startEvent { e with inputs := parseInputs raw })

def parseEndEvent (raw : XmlElement) : Except EngineError BpmnFlowElement :=
  .endEvent <$> eventElement raw

def parseIntermediateCatchEvent (raw : XmlElement) : Except EngineError BpmnFlowElement :=
  .intermediateCatchEvent <$> eventElement raw

def parseIntermediateThrowEvent (raw : XmlElement) : Except EngineError BpmnFlowElement :=
  .intermediateThrowEvent <$> eventElement raw

/-- Compensation boundary events never interrupt. -/
def parseBoundaryEvent (raw : XmlElement) : Except EngineError BpmnFlowElement := do
  let eventDefinition ← parseEventDefinition raw
  .ok (.boundaryEvent
    { baseElement raw with
      attachedToRef := (raw.attr "attachedToRef").getD ""
      cancelActivity :=
        if eventDefinition.type = .compensation then false
        else raw.attr "cancelActivity" ≠ some "false"
      eventDefinition })

def parseMultiInstanceLoopCharacteristics (raw : XmlElement) :
    Option MultiInstanceLoopCharacteristics := do
  let miRaw ← (raw.all "multiInstanceLoopCharacteristics").head?
  let inputCollection ← textAt miRaw "loopDataInputRef"
  some
    { isSequential := miRaw.attr "isSequential" = some "true"
      inputCollection
      inputElement := (miRaw.all "inputDataItem").head?.bind (·.attr "name")
      outputElement := (miRaw.all "outputDataItem").head?.bind (·.attr "name")
      outputCollection := textAt miRaw "loopDataOutputRef"
      completionCondition := textAt miRaw "completionCondition" }

def taskElement (raw : XmlElement) : TaskElement :=
  { baseElement raw with
    loopCharacteristics := parseMultiInstanceLoopCharacteristics raw
    isForCompensation := raw.attr "isForCompensation" = some "true" }

def parseServiceTask (raw : XmlElement) : BpmnFlowElement :=
  .serviceTask
    { taskElement raw with taskType := (raw.attr "nexus:type").or (raw.attr "type") }

/-- The priority, which is 50, is left out. -/
def parseUserTask (raw : XmlElement) : BpmnFlowElement :=
  .userTask
    { taskElement raw with assignee := raw.attr "assignee", formKey := raw.attr "formKey" }

def parseScriptTask (raw : XmlElement) : BpmnFlowElement :=
  .scriptTask
    { taskElement raw with
      scriptLanguage := (raw.attr "scriptFormat").getD "javascript"
      script := (textAt raw "script").getD "" }

def parseManualTask (raw : XmlElement) : BpmnFlowElement := .manualTask (taskElement raw)

def parseCallActivity (raw : XmlElement) : BpmnFlowElement :=
  .callActivity { baseElement raw with calledElement := (raw.attr "calledElement").getD "" }

def parseGateway (type : GatewayType) (raw : XmlElement) : BpmnFlowElement :=
  .gateway
    { baseElement raw with
      type
      defaultFlow := raw.attr "default"
      instantiate := type = .eventBased && raw.attr "instantiate" = some "true" }

def parseSequenceFlow (raw : XmlElement) : SequenceFlow where
  id := (raw.attr "id").getD ""
  sourceRef := (raw.attr "sourceRef").getD ""
  targetRef := (raw.attr "targetRef").getD ""
  conditionExpression := (raw.all "conditionExpression").head?.bind extractText

/-- The keys and parsers of `parseElements`, but for sub-processes and transactions. -/
def leafParsers : List (String × (XmlElement → Except EngineError BpmnFlowElement)) :=
  [("startEvent", parseStartEvent),
    ("endEvent", parseEndEvent),
    ("intermediateCatchEvent", parseIntermediateCatchEvent),
    ("intermediateThrowEvent", parseIntermediateThrowEvent),
    ("boundaryEvent", parseBoundaryEvent),
    ("serviceTask", .ok ∘ parseServiceTask),
    ("userTask", .ok ∘ parseUserTask),
    ("scriptTask", .ok ∘ parseScriptTask),
    ("manualTask", .ok ∘ parseManualTask),
    ("callActivity", .ok ∘ parseCallActivity),
    ("exclusiveGateway", .ok ∘ parseGateway .exclusive),
    ("parallelGateway", .ok ∘ parseGateway .parallel),
    ("inclusiveGateway", .ok ∘ parseGateway .inclusive),
    ("eventBasedGateway", .ok ∘ parseGateway .eventBased)]

/-- The elements of one level, given those read from its sub-processes and transactions. -/
def parseLevel (raw : XmlElement)
    (subProcesses transactions : Except EngineError (List BpmnFlowElement)) :
    Except EngineError (List BpmnFlowElement) := do
  let leaves ← leafParsers.mapM fun (key, parser) => (raw.all key).mapM parser
  let subProcesses ← subProcesses
  let transactions ← transactions
  .ok (leaves.flatten ++ subProcesses ++ transactions)

/-- The id of the first start event. -/
def firstStart (elements : List BpmnFlowElement) : String :=
  ((elements.find? (·.type = .startEvent)).map (·.id)).getD ""

mutual

/-- Inside a sub-process no flow is marked as a default flow. -/
def parseSubProcess (isTransaction : Bool) : XmlElement → Except EngineError BpmnFlowElement
  | .element tag attributes text children => do
      let raw := .element tag attributes text children
      let innerFlows := (raw.all "sequenceFlow").map parseSequenceFlow
      let innerElements ← parseLevel raw (parseSubProcesses "subProcess" false children)
        (parseSubProcesses "transaction" true children)
      .ok (.subProcess (baseElement raw) isTransaction innerElements innerFlows
        (firstStart innerElements))

/-- The elements of the key, one after the other. -/
def parseSubProcesses (key : String) (isTransaction : Bool) :
    List XmlElement → Except EngineError (List BpmnFlowElement)
  | [] => .ok []
  | raw :: rest =>
      if raw.tag = key then do
        let element ← parseSubProcess isTransaction raw
        let elements ← parseSubProcesses key isTransaction rest
        .ok (element :: elements)
      else parseSubProcesses key isTransaction rest

end

def parseElements (rawProcess : XmlElement) : Except EngineError (List BpmnFlowElement) :=
  parseLevel rawProcess (parseSubProcesses "subProcess" false rawProcess.children)
    (parseSubProcesses "transaction" true rawProcess.children)

/-! ## Validation -/

structure ValidationError where
  code : String
  message : String
  elementId : Option String := none
  deriving DecidableEq

/-- The error of a flow whose source or target is none of the elements. -/
def unresolvedRef (elements : List BpmnFlowElement) (flow : SequenceFlow) (code role ref : String) :
    List ValidationError :=
  if ref ∈ elements.map (·.id) then []
  else [{ code
          message := s!"Sequence flow \"{flow.id}\" references unknown {role} element \"{ref}\""
          elementId := some flow.id }]

/-- Only the top level is looked at. -/
def validate (elements : List BpmnFlowElement) (flows : List SequenceFlow) : List ValidationError :=
  (if elements.any (·.type = .startEvent) then []
    else [{ code := "MISSING_START_EVENT", message := "Process has no start event" }]) ++
  (if elements.any (·.type = .endEvent) ∨ elements.isEmpty then []
    else [{ code := "MISSING_END_EVENT", message := "Process has no end event" }]) ++
  flows.flatMap fun flow =>
    unresolvedRef elements flow "UNRESOLVED_FLOW_SOURCE" "source" flow.sourceRef ++
      unresolvedRef elements flow "UNRESOLVED_FLOW_TARGET" "target" flow.targetRef

/-- The definition made of the elements and flows of a diagram. -/
def assemble (id : String) (elements : List BpmnFlowElement) (sequenceFlows : List SequenceFlow) :
    ProcessDefinition :=
  { id, version := 1, elements, sequenceFlows
    startEventId := ((elements.find? (·.type = .startEvent)).map (·.id)).getD ""
    isDeployable := (validate elements sequenceFlows).isEmpty }

/-! ## Entry point -/

structure ParseResult where
  definition : ProcessDefinition
  errors : List ValidationError

def collectGateways (rawProcess : XmlElement) : List XmlElement :=
  ["exclusiveGateway", "inclusiveGateway", "parallelGateway", "eventBasedGateway"].flatMap
    rawProcess.all

/-- `parseBpmn`, once the document is parsed; the clock, read for `deployedAt`, is with the
caller. -/
def parseBpmn (parsed : List XmlElement) : Except EngineError ParseResult := do
  let some definitions := valueAt parsed "definitions" | .error (.definitionError
    "Root <definitions> element not found — is this valid BPMN 2.0 XML?")
  let some rawProcess := valueAt definitions.children "process" | .error (.definitionError
    "No <process> element found inside <definitions>")
  let defaultFlowIds := (collectGateways rawProcess).filterMap fun raw =>
    truthy (raw.attr "default")
  let sequenceFlows := (rawProcess.all "sequenceFlow").map fun raw =>
    let flow := parseSequenceFlow raw
    { flow with isDefault := flow.id ∈ defaultFlowIds }
  let elements ← parseElements rawProcess
  .ok { definition := { assemble ((rawProcess.attr "id").getD "") elements sequenceFlows with
          name := rawProcess.attr "name" }
        errors := validate elements sequenceFlows }

end NexusWorkflow
