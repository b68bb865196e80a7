import NexusWorkflow.Model.Definition
import NexusWorkflow.Lib.Checked

/-!
# Gateway evaluation

The functions of `gateways/*.ts`.  A JavaScript `Set` of flow ids is a `KeyedMap` on the ids
themselves: each id once, in the order of insertion.
-/

namespace NexusWorkflow

/-! ## Exclusive gateway -/

/-- The pass over the flows: the first flow without a condition or with a true one wins, the default
flow is kept for the end. -/
def exclusiveChoice (gatewayId : String) (defaultFlowId : Option String)
    (evaluate : String → Except EngineError Bool) :
    List SequenceFlow → Option SequenceFlow → Except EngineError String
  | [], some defaultFlow => .ok defaultFlow.id
  | [], none => .error (.definitionError
      s!"Exclusive gateway \"{gatewayId}\": no condition matched and no default flow is defined")
  | flow :: rest, defaultFlow =>
      if some flow.id = defaultFlowId ∨ flow.isDefault then
        exclusiveChoice gatewayId defaultFlowId evaluate rest (some flow)
      else
        match flow.conditionExpression with
        | none => .ok flow.id
        | some expression => do
            if ← evaluate expression then .ok flow.id
            else exclusiveChoice gatewayId defaultFlowId evaluate rest defaultFlow

/-- The id of the one outgoing flow of an XOR gateway that receives the token. -/
def evaluateExclusiveSplit (gatewayId : String) (outgoingFlows : List SequenceFlow)
    (defaultFlowId : Option String) (evaluate : String → Except EngineError Bool) :
    Except EngineError String :=
  if outgoingFlows.isEmpty then
    .error (.runtime s!"Exclusive gateway \"{gatewayId}\" has no outgoing sequence flows")
  else exclusiveChoice gatewayId defaultFlowId evaluate outgoingFlows none

theorem exclusiveChoice_mem {gatewayId : String} {defaultFlowId : Option String}
    {evaluate : String → Except EngineError Bool} {outgoing flows : List SequenceFlow}
    {defaultFlow : Option SequenceFlow} {selected : String} (hflows : ∀ f ∈ flows, f ∈ outgoing)
    (hdefault : ∀ f, defaultFlow = some f → f ∈ outgoing)
    (h : exclusiveChoice gatewayId defaultFlowId evaluate flows defaultFlow = .ok selected) :
    ∃ f ∈ outgoing, f.id = selected := by
  induction flows generalizing defaultFlow with
  | nil =>
    cases defaultFlow with
    | none => simp [exclusiveChoice] at h
    | some f => exact ⟨f, hdefault f rfl, Except.ok.inj h⟩
  | cons f rest ih =>
    have hf := hflows f List.mem_cons_self
    have hrest : ∀ x ∈ rest, x ∈ outgoing := fun x hx => hflows x (List.mem_cons_of_mem f hx)
    rw [exclusiveChoice] at h
    split_ifs at h with hd
    · exact ih hrest (by rintro x ⟨⟩; exact hf) h
    · cases hc : f.conditionExpression with
      | none =>
        simp only [hc] at h
        exact ⟨f, hf, Except.ok.inj h⟩
      | some expression =>
        simp only [hc] at h
        obtain ⟨b, -, h⟩ := Except.bind_eq_ok_iff.1 h
        cases b with
        | true => exact ⟨f, hf, Except.ok.inj h⟩
        | false => exact ih hrest hdefault h

theorem evaluateExclusiveSplit_mem {gatewayId : String} {outgoing : List SequenceFlow}
    {defaultFlowId : Option String} {evaluate : String → Except EngineError Bool}
    {selected : String}
    (h : evaluateExclusiveSplit gatewayId outgoing defaultFlowId evaluate = .ok selected) :
    ∃ f ∈ outgoing, f.id = selected := by
  unfold evaluateExclusiveSplit at h
  split_ifs at h
  exact exclusiveChoice_mem (fun _ hf => hf) (by simp) h

/-! ## Parallel gateway -/

/-- The ids of all outgoing flows of an AND gateway. -/
def evaluateParallelSplit (gatewayId : String) (outgoingFlows : List SequenceFlow) :
    Except EngineError (List String) :=
  if outgoingFlows.isEmpty then
    .error (.runtime s!"Parallel gateway \"{gatewayId}\" has no outgoing sequence flows")
  else .ok (outgoingFlows.map (·.id))

/-- A set of flow ids. -/
abbrev FlowSet := KeyedMap (id : String → String)

structure ParallelJoinResult where
  /-- All expected branches have now arrived. -/
  fires : Bool
  updatedState : ParallelGatewayJoinState

/-- A token arrives at an AND join; a flow arriving twice counts once. -/
def evaluateParallelJoin (arrivingFlowId : String) (currentState : ParallelGatewayJoinState) :
    ParallelJoinResult :=
  let arrived : FlowSet := (KeyedMap.ofList currentState.arrivedFromFlows).set arrivingFlowId
  let expected : FlowSet := KeyedMap.ofList currentState.expectedFlows
  { fires := currentState.expectedFlows.all (fun flowId => (arrived.get? flowId).isSome)
      && arrived.values.length ≥ expected.values.length
    updatedState := { currentState with arrivedFromFlows := arrived.values } }

/-! ## Inclusive gateway -/

/-- The flow has no condition or a true one. -/
def flowMatches (evaluate : String → Except EngineError Bool) (flow : SequenceFlow) :
    Except EngineError Bool :=
  match flow.conditionExpression with
  | none => .ok true
  | some expression => evaluate expression

/-- The pass over the flows: the non-default flows without a condition or with a true one, and the
last default flow. -/
def inclusiveChoice (defaultFlowId : Option String) (evaluate : String → Except EngineError Bool) :
    List SequenceFlow → List String → Option SequenceFlow →
      Except EngineError (List String × Option SequenceFlow)
  | [], activated, defaultFlow => .ok (activated, defaultFlow)
  | flow :: rest, activated, defaultFlow =>
      if some flow.id = defaultFlowId ∨ flow.isDefault then
        inclusiveChoice defaultFlowId evaluate rest activated (some flow)
      else do
        let isMatch ← flowMatches evaluate flow
        inclusiveChoice defaultFlowId evaluate rest
          (if isMatch then activated ++ [flow.id] else activated) defaultFlow

/-- The ids of the outgoing flows of an OR gateway that are activated. -/
def evaluateInclusiveSplit (gatewayId : String) (outgoingFlows : List SequenceFlow)
    (defaultFlowId : Option String) (evaluate : String → Except EngineError Bool) :
    Except EngineError (List String) :=
  if outgoingFlows.isEmpty then
    .error (.runtime s!"Inclusive gateway \"{gatewayId}\" has no outgoing sequence flows")
  else do
    let (activated, defaultFlow) ← inclusiveChoice defaultFlowId evaluate outgoingFlows [] none
    if activated.isEmpty then
      match defaultFlow with
      | some defaultFlow => .ok [defaultFlow.id]
      | none => .error (.definitionError
        s!"Inclusive gateway \"{gatewayId}\": no condition matched and no default flow is defined")
    else .ok activated

theorem inclusiveChoice_mem {defaultFlowId : Option String}
    {evaluate : String → Except EngineError Bool} {outgoing flows : List SequenceFlow}
    {activated : List String} {defaultFlow : Option SequenceFlow}
    {result : List String × Option SequenceFlow} (hflows : ∀ f ∈ flows, f ∈ outgoing)
    (hactivated : ∀ id ∈ activated, ∃ f ∈ outgoing, f.id = id)
    (hdefault : ∀ f, defaultFlow = some f → f ∈ outgoing)
    (h : inclusiveChoice defaultFlowId evaluate flows activated defaultFlow = .ok result) :
    (∀ id ∈ result.1, ∃ f ∈ outgoing, f.id = id) ∧ ∀ f, result.2 = some f → f ∈ outgoing := by
  induction flows generalizing activated defaultFlow with
  | nil =>
    rw [← Except.ok.inj h]
    exact ⟨hactivated, hdefault⟩
  | cons f rest ih =>
    have hf := hflows f List.mem_cons_self
    have hrest : ∀ x ∈ rest, x ∈ outgoing := fun x hx => hflows x (List.mem_cons_of_mem f hx)
    rw [inclusiveChoice] at h
    split_ifs at h with hd
    · exact ih hrest hactivated (by rintro x ⟨⟩; exact hf) h
    · obtain ⟨isMatch, -, h⟩ := Except.bind_eq_ok_iff.1 h
      refine ih hrest ?_ hdefault h
      intro id hid
      cases isMatch with
      | false => exact hactivated id hid
      | true =>
        rcases List.mem_append.1 hid with hid | hid
        · exact hactivated id hid
        · exact ⟨f, hf, (List.mem_singleton.1 hid).symm⟩

/-- A split activates at least one flow, and outgoing ones only. -/
theorem evaluateInclusiveSplit_mem {gatewayId : String} {outgoing : List SequenceFlow}
    {defaultFlowId : Option String} {evaluate : String → Except EngineError Bool}
    {activated : List String}
    (h : evaluateInclusiveSplit gatewayId outgoing defaultFlowId evaluate = .ok activated) :
    activated ≠ [] ∧ ∀ id ∈ activated, ∃ f ∈ outgoing, f.id = id := by
  unfold evaluateInclusiveSplit at h
  split_ifs at h
  obtain ⟨⟨chosen, defaultFlow⟩, hchoice, h⟩ := Except.bind_eq_ok_iff.1 h
  obtain ⟨hchosen, hdefault⟩ := inclusiveChoice_mem (fun _ hf => hf) (by simp) (by simp) hchoice
  simp only at h
  split_ifs at h with he
  · cases defaultFlow with
    | none => simp at h
    | some f =>
      obtain rfl : [f.id] = activated := Except.ok.inj h
      exact ⟨List.cons_ne_nil _ _, by simpa using ⟨f, hdefault f rfl, rfl⟩⟩
  · obtain rfl : chosen = activated := Except.ok.inj h
    exact ⟨by simpa using he, hchosen⟩

structure InclusiveJoinResult where
  /-- All activated paths have now arrived. -/
  fires : Bool
  updatedState : InclusiveGatewayJoinState

/-- A token arrives at an OR join; flows that the split did not activate are ignored. -/
def evaluateInclusiveJoin (arrivingFlowId : String) (currentState : InclusiveGatewayJoinState) :
    InclusiveJoinResult :=
  let arrived : FlowSet := (KeyedMap.ofList currentState.arrivedFromFlows).set arrivingFlowId
  { fires := currentState.activatedIncomingFlows.all fun flowId => (arrived.get? flowId).isSome
    updatedState := { currentState with arrivedFromFlows := arrived.values } }

/-! ## Event-based gateway -/

/-- `SUPPORTED_EVENT_TYPES`. -/
def supportedEventTypes : List EventDefinitionType := [.message, .signal, .timer]

/-- One outgoing flow of an event-based gateway leads to a supported catch event.  Flow and target
are looked up on the top level only. -/
def validateEventBasedBranch (gateway : GatewayElement) (d : ProcessDefinition) (flowId : String) :
    Except EngineError Unit :=
  match d.sequenceFlows.find? (·.id = flowId) with
  | none => .error (.definitionError
      s!"Event-Based Gateway \"{gateway.id}\" references unknown sequence flow \"{flowId}\".")
  | some flow =>
      match d.elements.find? (·.id = flow.targetRef) with
      | some (.intermediateCatchEvent ice) =>
          if ice.eventDefinition.type ∈ supportedEventTypes then .ok ()
          else .error (.definitionError (
          s!"Event-Based Gateway \"{gateway.id}\": outgoing flow \"{flowId}\" targets ICE " ++
          s!"\"{ice.id}\" with unsupported event definition type " ++
          s!"\"{ice.eventDefinition.type.name}\". Only message, signal, and timer are supported."))
      | target =>
          let type := (target.map (·.type.name)).getD "unknown"
          .error (.definitionError (
            s!"Event-Based Gateway \"{gateway.id}\" outgoing flow \"{flowId}\" must target an " ++
            s!"intermediateCatchEvent, but targets \"{type}\" (id: \"{flow.targetRef}\")."))

/-- The checks on an event-based gateway when a token reaches it. -/
def validateEventBasedGateway (gateway : GatewayElement) (d : ProcessDefinition) :
    Except EngineError Unit :=
  if gateway.instantiate then
    .error (.definitionError (
      s!"Event-Based Gateway \"{gateway.id}\" has instantiate=true, which is not supported. " ++
      "Only non-instantiating Event-Based Gateways are implemented."))
  else if gateway.outgoingFlows.isEmpty then
    .error (.definitionError
      s!"Event-Based Gateway \"{gateway.id}\" has no outgoing sequence flows.")
  else gateway.outgoingFlows.forM (validateEventBasedBranch gateway d)

end NexusWorkflow
