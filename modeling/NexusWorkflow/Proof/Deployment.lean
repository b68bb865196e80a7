import NexusWorkflow.Game.Acts
import NexusWorkflow.Run.Diagram
import NexusWorkflow.Run.Reach

/-!
# Deployable definitions

The parser calls a definition deployable if it has a start and an end event and all flows of the top
level join elements of the top level.  That does not keep the engine from errors about the
definition: what is inside a sub-process is not looked at, nor the flows that an element lists, nor
whether the engine supports the element at all.  In a definition where nothing is missing at the
elements that a token can get to, every error is one of the state, the data or the expressions.
-/

namespace NexusWorkflow

open ExecutionContext Except

/-- The error says nothing against the definition: a command does not fit the state, the data are of
the wrong kind, or an expression fails. -/
inductive EngineError.OfRun (evaluate : String → Variables → Except EngineError Value) :
    EngineError → Prop
  | outOfFuel : OfRun evaluate .outOfFuel
  /-- The join state of a gateway is that of another kind of gateway. -/
  | typeError (message : String) : OfRun evaluate (.typeError message)
  | evaluation {expression : String} {vars : Variables} {e : EngineError}
      (h : evaluate expression vars = .error e) : OfRun evaluate e
  | noToken (id : Nat) : OfRun evaluate (.runtime s!"Token \"{id}\" not found")
  | noInstance : OfRun evaluate (.runtime "No active process instance in execution context")
  | noScope (scopeId : Nat) : OfRun evaluate (.runtime s!"Scope \"{scopeId}\" not found")
  | notWaiting (action : String) (status : TokenStatus) (instanceId : Option Nat) :
      OfRun evaluate (.runtime
        s!"Cannot {action} — status is \"{status.name}\", expected \"waiting\"" instanceId)
  | notActive (inst : ProcessInstance) : OfRun evaluate (.runtime
      s!"Cannot suspend instance — status is \"{inst.status.name}\", expected \"active\""
      (some inst.id))
  | notSuspended (inst : ProcessInstance) : OfRun evaluate (.runtime
      s!"Cannot resume instance — status is \"{inst.status.name}\", expected \"suspended\""
      (some inst.id))
  | notArray (inputCollection : String) (instanceId : Option Nat) : OfRun evaluate (.runtime
      s!"Multi-instance inputCollection \"{inputCollection}\" did not resolve to an array"
        instanceId)
  /-- The other branches of the split have joined before. -/
  | noSplit (gatewayId : String) : OfRun evaluate (.runtime (
      s!"Inclusive gateway \"{gatewayId}\" received a token at the join but has no " ++
      "corresponding split state. Ensure the split recorded activatedIncomingFlows."))
  | noChoice (gatewayId : String) : OfRun evaluate (.definitionError
      s!"Exclusive gateway \"{gatewayId}\": no condition matched and no default flow is defined")
  | noPath (gatewayId : String) : OfRun evaluate (.definitionError
      s!"Inclusive gateway \"{gatewayId}\": no condition matched and no default flow is defined")

variable {d : ProcessDefinition} {ctx ctx' : ExecutionContext} {t : Token}
  {E : String → Variables → Except EngineError Value}

/-! ## What the validation finds out -/

theorem unresolvedRef_nil {elements : List BpmnFlowElement} {flow : SequenceFlow}
    {code role ref : String} (h : unresolvedRef elements flow code role ref = []) :
    ref ∈ elements.map (·.id) := by
  unfold unresolvedRef at h
  by_contra hnot
  rw [if_neg hnot] at h
  cases h

theorem knows_assemble {id ref : String} {elements : List BpmnFlowElement}
    {flows : List SequenceFlow} (h : ref ∈ elements.map (·.id)) :
    (assemble id elements flows).Knows ref := by
  obtain ⟨e, he, rfl⟩ := List.mem_map.1 h
  exact ProcessDefinition.knows_of_mem (mem_elementsInTree_of_mem he)

/-- A deployable definition has its start event, and its flows join elements that are there.  This
is all that the validation says about a token's way. -/
theorem knows_of_isDeployable {id : String} {elements : List BpmnFlowElement}
    {flows : List SequenceFlow} (h : (assemble id elements flows).isDeployable = true) :
    (assemble id elements flows).Knows (assemble id elements flows).startEventId ∧
      ∀ flow ∈ flows, (assemble id elements flows).Knows flow.sourceRef ∧
        (assemble id elements flows).Knows flow.targetRef := by
  have hvalid : validate elements flows = [] := List.isEmpty_iff.1 h
  unfold validate at hvalid
  rw [List.append_eq_nil_iff, List.append_eq_nil_iff] at hvalid
  obtain ⟨⟨hstart, -⟩, hflows⟩ := hvalid
  refine ⟨?_, fun flow hflow => ?_⟩
  · have hany : elements.any (·.type = .startEvent) = true := by
      by_contra hnot
      rw [if_neg hnot] at hstart
      cases hstart
    obtain ⟨e, he⟩ := Option.isSome_iff_exists.1 (List.find?_isSome.2 (List.any_eq_true.1 hany))
    refine knows_assemble (List.mem_map.2 ⟨e, List.mem_of_find?_eq_some he, ?_⟩)
    simp [assemble, he]
  · have hrefs := List.append_eq_nil_iff.1 (List.flatMap_eq_nil_iff.1 hflows flow hflow)
    exact ⟨knows_assemble (unresolvedRef_nil hrefs.1), knows_assemble (unresolvedRef_nil hrefs.2)⟩

/-! ## The context -/

theorem requireInstance_ofRun : FailsOnly (EngineError.OfRun E) ctx.requireInstance := by
  unfold requireInstance
  cases ctx.inst with
  | none => exact .error .noInstance
  | some inst => exact .ok inst

theorem requireToken_ofRun {id : Nat} : FailsOnly (EngineError.OfRun E) (ctx.requireToken id) := by
  unfold requireToken
  cases ctx.tokenMap.get? id with
  | none => exact .error (.noToken id)
  | some t => exact .ok t

theorem mergeVariables_ofRun {scopeId : Nat} {vars : Variables} :
    FailsOnly (EngineError.OfRun E) (ctx.mergeVariables scopeId vars) := by
  unfold mergeVariables
  cases ctx.scopeMap.get? scopeId with
  | none => exact .error (.noScope scopeId)
  | some scope => exact .ok _

theorem mergeOutput_ofRun {scopeId : Nat} {vars : Option Variables} :
    FailsOnly (EngineError.OfRun E) (ctx.mergeOutput scopeId vars) := by
  unfold mergeOutput
  split
  · split
    · exact .ok ctx
    · exact mergeVariables_ofRun
  · exact .ok ctx

theorem scopeChain_ofRun {scopeMap : KeyedMap VariableScope.id} {fuel : Nat}
    {scopeId : Option Nat} :
    FailsOnly (EngineError.OfRun E) (scopeChain scopeMap fuel scopeId) := by
  induction fuel generalizing scopeId with
  | zero =>
    cases scopeId with
    | none => exact .ok []
    | some id =>
      unfold scopeChain
      split
      · exact .ok []
      · exact .error .outOfFuel
  | succ fuel ih =>
    cases scopeId with
    | none => exact .ok []
    | some id =>
      unfold scopeChain
      split
      · exact .ok []
      · exact ih.bind fun _ _ => .ok _

theorem resolveScope_ofRun {scopeId : Nat} :
    FailsOnly (EngineError.OfRun E) (ctx.resolveScope scopeId) :=
  scopeChain_ofRun.bind fun _ _ => .ok _

theorem evaluateExpression_ofRun (hE : ctx.options.evaluate = E) {scope : Variables}
    {expression : String} : FailsOnly (EngineError.OfRun E)
    (evaluateExpression ctx scope expression) :=
  FailsOnly.bind (fun _ h => .evaluation (hE ▸ h)) fun _ _ => .ok _

theorem completeInstance_ofRun : FailsOnly (EngineError.OfRun E) (completeInstance ctx) :=
  requireInstance_ofRun.bind fun _ _ => .ok _

/-! ## Moving -/

theorem getElement_ofRun {id : String} (h : d.Knows id) :
    FailsOnly (EngineError.OfRun E) (d.getElement id) := by
  obtain ⟨e, he⟩ := h
  rw [he]
  exact .ok e

theorem moveTokenToFlow_ofRun {flowId : String} (h : d.Leads flowId) :
    FailsOnly (EngineError.OfRun E) (moveTokenToFlow d ctx t flowId) := by
  obtain ⟨flow, hflow, htarget⟩ := h
  unfold moveTokenToFlow
  rw [hflow]
  exact (getElement_ofRun htarget).bind fun _ _ => .ok _

theorem moveTokenToFlows_ofRun {flows : List String} (h : d.Continues flows) :
    FailsOnly (EngineError.OfRun E) (moveTokenToFlows d ctx t flows) :=
  .foldlM (fun _ flowId hmem => moveTokenToFlow_ofRun (h flowId hmem)) ctx

theorem advanceToken_ofRun {e : BpmnFlowElement} (h : d.Continues e.outgoingFlows) :
    FailsOnly (EngineError.OfRun E) (advanceToken d ctx t e) :=
  moveTokenToFlows_ofRun h

/-- Leaving an element where nothing is missing. -/
theorem advance_ofRun {id : String} {f : BpmnFlowElement → ExecutionContext} (h : d.Stands id) :
    FailsOnly (EngineError.OfRun E)
      (d.getElement id >>= fun e => moveTokenToFlows d (f e) t e.outgoingFlows) := by
  obtain ⟨e, he, hserves⟩ := h
  rw [he]
  exact moveTokenToFlows_ofRun hserves.continues

/-! ## Sub-processes and end events -/

theorem propagateInner_ofRun {inner : List Token} {outer : Token} :
    FailsOnly (EngineError.OfRun E) (propagateInner ctx inner outer) := by
  unfold propagateInner
  split
  · exact .ok ctx
  · exact resolveScope_ofRun.bind fun _ _ => mergeOutput_ofRun

theorem checkSubProcessCompletion_ofRun {s : String} (h : d.Stands s) :
    FailsOnly (EngineError.OfRun E) (checkSubProcessCompletion d ctx s) := by
  unfold checkSubProcessCompletion
  simp only
  split
  · exact .ok ctx
  · split
    · exact .ok ctx
    · exact requireInstance_ofRun.bind fun _ _ => propagateInner_ofRun.bind fun _ _ =>
        advance_ofRun h

theorem fireCancelBoundary_ofRun {outer : Token} {s : String} (h : d.Stands s) :
    FailsOnly (EngineError.OfRun E) (fireCancelBoundary d ctx outer s) := by
  unfold fireCancelBoundary
  split
  · exact .ok ctx
  · rename_i b hb
    split
    · exact .ok ctx
    · obtain ⟨e, he, hserves⟩ := h
      refine moveTokenToFlows_ofRun (hserves.catches b ?_ (.inr ?_))
      · rw [ProcessDefinition.getElement_id he]
        exact List.mem_of_find?_eq_some hb
      · simpa using List.find?_some hb

theorem handleTransactionCancel_ofRun
    (h : ∀ s, truthy t.subProcessInstanceId = some s → d.Stands s) :
    FailsOnly (EngineError.OfRun E) (handleTransactionCancel d ctx t) := by
  unfold handleTransactionCancel
  split
  · exact .ok ctx
  · rename_i s hs
    refine requireInstance_ofRun.bind fun _ _ => ?_
    simp only
    split
    · exact fireCancelBoundary_ofRun (h s hs)
    · exact .ok _

theorem handleEndEvent_ofRun {e : EventElement}
    (h : ∀ s, truthy t.subProcessInstanceId = some s → d.Stands s) :
    FailsOnly (EngineError.OfRun E) (handleEndEvent d ctx t e) := by
  unfold handleEndEvent
  simp only
  split
  · exact handleTransactionCancel_ofRun h
  · split
    · exact completeInstance_ofRun
    · split
      · rename_i s hs
        exact checkSubProcessCompletion_ofRun (h s hs)
      · split
        · exact completeInstance_ofRun
        · exact .ok _

theorem handleSubProcess_ofRun {e : BpmnElement} {isTransaction : Bool} {startEventId : String} :
    FailsOnly (EngineError.OfRun E) (handleSubProcess d ctx t e isTransaction startEventId) :=
  requireInstance_ofRun.bind fun _ _ => .ok _

/-! ## Intermediate events -/

theorem handleBoundaryEventWait_ofRun {b : BoundaryEventElement}
    (h : b.waitCondition.isSome = true) :
    FailsOnly (EngineError.OfRun E) (handleBoundaryEventWait ctx t b) := by
  unfold BoundaryEventElement.waitCondition at h
  unfold handleBoundaryEventWait
  simp only
  cases htype : b.eventDefinition.type <;> rw [htype] at h <;> first | exact .ok _ | cases h

theorem handleIntermediateCatchEvent_ofRun {e : EventElement}
    (h : e.eventDefinition.catchCondition.isSome = true) :
    FailsOnly (EngineError.OfRun E) (handleIntermediateCatchEvent ctx t e) := by
  unfold EventDefinition.catchCondition at h
  unfold handleIntermediateCatchEvent
  simp only
  cases htype : e.eventDefinition.type <;> rw [htype] at h <;> first | exact .ok _ | cases h

theorem handleIntermediateThrowEvent_ofRun {e : EventElement} (h : d.Continues e.outgoingFlows) :
    FailsOnly (EngineError.OfRun E) (handleIntermediateThrowEvent d ctx t e) := by
  unfold handleIntermediateThrowEvent
  split
  · refine requireInstance_ofRun.bind fun _ _ => ?_
    simp only
    split
    · exact advanceToken_ofRun h
    · exact .ok _
  · exact advanceToken_ofRun h

/-! ## Gateways -/

theorem exclusiveChoice_ofRun {gatewayId : String} {defaultFlowId : Option String}
    {evaluate : String → Except EngineError Bool} {flows : List SequenceFlow}
    {defaultFlow : Option SequenceFlow}
    (h : ∀ expression, FailsOnly (EngineError.OfRun E) (evaluate expression)) :
    FailsOnly (EngineError.OfRun E)
      (exclusiveChoice gatewayId defaultFlowId evaluate flows defaultFlow) := by
  induction flows generalizing defaultFlow with
  | nil =>
    cases defaultFlow with
    | none => exact .error (.noChoice gatewayId)
    | some flow => exact .ok flow.id
  | cons flow rest ih =>
    unfold exclusiveChoice
    split
    · exact ih
    · split
      · exact .ok flow.id
      · refine (h _).bind fun taken _ => ?_
        cases taken with
        | true => exact .ok flow.id
        | false => exact ih

theorem handleExclusiveGateway_ofRun (hE : ctx.options.evaluate = E) {g : GatewayElement}
    (hne : d.getOutgoingFlows g.id ≠ []) (h : ∀ flow ∈ d.getOutgoingFlows g.id, d.Leads flow.id) :
    FailsOnly (EngineError.OfRun E) (handleExclusiveGateway d ctx t g) := by
  unfold handleExclusiveGateway
  refine resolveScope_ofRun.bind fun scope _ => FailsOnly.bind ?_ fun selected hselected => ?_
  · unfold evaluateExclusiveSplit
    rw [if_neg (by simpa using hne)]
    exact exclusiveChoice_ofRun fun _ => evaluateExpression_ofRun hE
  · obtain ⟨flow, hflow, rfl⟩ := evaluateExclusiveSplit_mem hselected
    exact moveTokenToFlow_ofRun (h flow hflow)

theorem continues_outgoing {id : String} (h : ∀ flow ∈ d.getOutgoingFlows id, d.Leads flow.id) :
    d.Continues ((d.getOutgoingFlows id).map (·.id)) := by
  intro flowId hmem
  obtain ⟨flow, hflow, rfl⟩ := List.mem_map.1 hmem
  exact h flow hflow

theorem parallelJoinStart_ofRun {gatewayId : String} {incoming : List SequenceFlow} :
    FailsOnly (EngineError.OfRun E) (parallelJoinStart ctx gatewayId incoming) := by
  unfold parallelJoinStart
  split
  · exact .ok _
  · exact .error (.typeError _)
  · exact requireInstance_ofRun.bind fun _ _ => .ok _

theorem length_lt_two {α : Type} {l : List α} (h : ∀ a b rest, l ≠ a :: b :: rest) :
    l.length < 2 := by
  match l, h with
  | [], _ | [_], _ => simp
  | a :: b :: rest, h => exact absurd rfl (h a b rest)

theorem handleParallelGateway_ofRun {g : GatewayElement}
    (hne : (d.getIncomingFlows g.id).length < 2 → d.getOutgoingFlows g.id ≠ [])
    (h : ∀ flow ∈ d.getOutgoingFlows g.id, d.Leads flow.id) :
    FailsOnly (EngineError.OfRun E) (handleParallelGateway d ctx t g) := by
  unfold handleParallelGateway
  simp only
  split
  · refine parallelJoinStart_ofRun.bind fun ⟨state, c⟩ _ => ?_
    split
    · exact moveTokenToFlows_ofRun (continues_outgoing h)
    · exact .ok _
  · rename_i hincoming
    have hsplit : evaluateParallelSplit g.id (d.getOutgoingFlows g.id) =
        .ok ((d.getOutgoingFlows g.id).map (·.id)) := by
      unfold evaluateParallelSplit
      exact if_neg (by simpa using hne (length_lt_two hincoming))
    rw [hsplit]
    exact moveTokenToFlows_ofRun (continues_outgoing h)

theorem inclusiveChoice_ofRun {defaultFlowId : Option String}
    {evaluate : String → Except EngineError Bool} {flows : List SequenceFlow}
    {activated : List String} {defaultFlow : Option SequenceFlow}
    (h : ∀ expression, FailsOnly (EngineError.OfRun E) (evaluate expression)) :
    FailsOnly (EngineError.OfRun E)
      (inclusiveChoice defaultFlowId evaluate flows activated defaultFlow) := by
  induction flows generalizing activated defaultFlow with
  | nil => exact .ok _
  | cons flow rest ih =>
    unfold inclusiveChoice
    split
    · exact ih
    · refine FailsOnly.bind ?_ fun _ _ => ih
      unfold flowMatches
      split
      · exact .ok true
      · exact h _

theorem registerInclusiveJoin_ofRun {flows : List String} :
    FailsOnly (EngineError.OfRun E) (registerInclusiveJoin d ctx flows) := by
  unfold registerInclusiveJoin
  split
  · exact .ok ctx
  · exact requireInstance_ofRun.bind fun _ _ => .ok _

theorem evaluateInclusiveSplit_ofRun {gatewayId : String} {defaultFlowId : Option String}
    {evaluate : String → Except EngineError Bool} {flows : List SequenceFlow} (hne : flows ≠ [])
    (h : ∀ expression, FailsOnly (EngineError.OfRun E) (evaluate expression)) :
    FailsOnly (EngineError.OfRun E)
      (evaluateInclusiveSplit gatewayId flows defaultFlowId evaluate) := by
  unfold evaluateInclusiveSplit
  rw [if_neg (by simpa using hne)]
  refine (inclusiveChoice_ofRun h).bind fun ⟨activated, defaultFlow⟩ _ => ?_
  simp only
  split
  · split
    · exact .ok _
    · exact .error (.noPath gatewayId)
  · exact .ok activated

theorem handleInclusiveGateway_ofRun (hE : ctx.options.evaluate = E) {g : GatewayElement}
    (hne : (d.getIncomingFlows g.id).length < 2 → d.getOutgoingFlows g.id ≠ [])
    (h : ∀ flow ∈ d.getOutgoingFlows g.id, d.Leads flow.id) :
    FailsOnly (EngineError.OfRun E) (handleInclusiveGateway d ctx t g) := by
  unfold handleInclusiveGateway
  simp only
  split
  · split
    · exact .error (.noSplit g.id)
    · exact .error (.typeError _)
    · split
      · exact moveTokenToFlows_ofRun (continues_outgoing h)
      · exact .ok _
  · rename_i hincoming
    refine resolveScope_ofRun.bind fun scope _ => FailsOnly.bind ?_ fun activated hactivated => ?_
    · exact evaluateInclusiveSplit_ofRun (hne (length_lt_two hincoming)) fun _ =>
        evaluateExpression_ofRun hE
    · refine registerInclusiveJoin_ofRun.bind fun _ _ => moveTokenToFlows_ofRun fun flowId hmem =>
        ?_
      obtain ⟨flow, hflow, rfl⟩ := (evaluateInclusiveSplit_mem hactivated).2 flowId hmem
      exact h flow hflow

theorem handleEventBasedGateway_ofRun {g : GatewayElement}
    (hvalid : (validateEventBasedGateway g d).toOption.isSome = true)
    (h : ∀ flow ∈ d.getOutgoingFlows g.id, d.Knows flow.targetRef) :
    FailsOnly (EngineError.OfRun E) (handleEventBasedGateway d ctx t g) := by
  obtain ⟨u, hu⟩ := Option.isSome_iff_exists.1 hvalid
  unfold handleEventBasedGateway
  rw [eq_ok_of_toOption hu]
  refine FailsOnly.bind (.ok u) fun _ _ => FailsOnly.bind ?_ fun _ _ => .ok _
  refine .foldlM (fun c flow hflow => ?_) _
  exact (getElement_ofRun (h flow hflow)).bind fun _ _ => .ok _

/-! ## Multi-instance activities -/

theorem completionConditionHolds_ofRun (hE : ctx.options.evaluate = E)
    {lc : MultiInstanceLoopCharacteristics} :
    FailsOnly (EngineError.OfRun E) (completionConditionHolds ctx t lc) := by
  unfold completionConditionHolds
  split
  · exact .ok false
  · exact resolveScope_ofRun.bind fun _ _ => evaluateExpression_ofRun hE

theorem initOutputCollection_ofRun {lc : MultiInstanceLoopCharacteristics} :
    FailsOnly (EngineError.OfRun E) (initOutputCollection ctx t lc) := by
  unfold initOutputCollection
  split
  · exact mergeVariables_ofRun
  · exact .ok ctx

theorem handleMultiInstanceStart_ofRun (hE : ctx.options.evaluate = E) {e : BpmnFlowElement}
    {lc : MultiInstanceLoopCharacteristics} (h : d.Continues e.outgoingFlows) :
    FailsOnly (EngineError.OfRun E) (handleMultiInstanceStart d ctx t e lc) := by
  unfold handleMultiInstanceStart
  refine resolveScope_ofRun.bind fun scope _ => FailsOnly.bind ?_ fun value _ => ?_
  · exact fun _ herror => .evaluation (hE ▸ herror)
  · split
    · exact requireInstance_ofRun.bind fun _ _ => advanceToken_ofRun h
    · refine requireInstance_ofRun.bind fun _ _ => ?_
      simp only
      split
      · exact .ok _
      · exact initOutputCollection_ofRun.bind fun _ _ => .ok _
    · exact .error (.notArray _ _)

theorem completeMultiInstance_ofRun {e : BpmnFlowElement} {n : Nat}
    (h : d.Continues e.outgoingFlows) :
    FailsOnly (EngineError.OfRun E) (completeMultiInstance d ctx t e n) :=
  requireInstance_ofRun.bind fun _ _ => moveTokenToFlows_ofRun h

theorem collectOutput_ofRun {p : Token} {lc : MultiInstanceLoopCharacteristics} :
    FailsOnly (EngineError.OfRun E) (collectOutput ctx t p lc) := by
  unfold collectOutput
  split
  · refine resolveScope_ofRun.bind fun _ _ => ?_
    split
    · exact .ok ctx
    · exact resolveScope_ofRun.bind fun _ _ => mergeVariables_ofRun
  · exact .ok ctx

theorem handleSequentialChildCompletion_ofRun (hE : ctx.options.evaluate = E) {p : Token}
    {e : BpmnFlowElement} {lc : MultiInstanceLoopCharacteristics}
    (h : d.Continues e.outgoingFlows) :
    FailsOnly (EngineError.OfRun E) (handleSequentialChildCompletion d ctx t p e lc) := by
  unfold handleSequentialChildCompletion
  split
  · exact .ok ctx
  · refine (completionConditionHolds_ofRun hE).bind fun done _ => ?_
    cases done with
    | true => exact completeMultiInstance_ofRun h
    | false =>
      split
      · contradiction
      · split
        · exact completeMultiInstance_ofRun h
        · exact .ok _

theorem handleParallelChildCompletion_ofRun (hE : ctx.options.evaluate = E) {p : Token}
    {e : BpmnFlowElement} {lc : MultiInstanceLoopCharacteristics}
    (h : d.Continues e.outgoingFlows) :
    FailsOnly (EngineError.OfRun E) (handleParallelChildCompletion d ctx t p e lc) := by
  unfold handleParallelChildCompletion
  refine (completionConditionHolds_ofRun hE).bind fun done _ => ?_
  split
  · exact completeMultiInstance_ofRun h
  · split
    · exact completeMultiInstance_ofRun h
    · exact .ok ctx

theorem handleMultiInstanceChildCompletion_ofRun (hE : ctx.options.evaluate = E)
    {e : BpmnFlowElement} {lc : MultiInstanceLoopCharacteristics}
    (h : d.Continues e.outgoingFlows) :
    FailsOnly (EngineError.OfRun E) (handleMultiInstanceChildCompletion d ctx t e lc) := by
  unfold handleMultiInstanceChildCompletion
  split
  · exact .ok ctx
  · refine collectOutput_ofRun.bind fun c hc => ?_
    obtain ⟨labels, -, hacts⟩ := collectOutput_acts hc
    have hc : c.options.evaluate = E := by
      rw [hacts.options]
      exact hE
    split
    · exact handleSequentialChildCompletion_ofRun hc h
    · exact handleParallelChildCompletion_ofRun hc h

/-! ## The run loop -/

theorem handleTask_ofRun (hE : ctx.options.evaluate = E) {e : BpmnFlowElement}
    {otherwise : Except EngineError ExecutionContext} (h : d.Continues e.outgoingFlows)
    (hother : FailsOnly (EngineError.OfRun E) otherwise) :
    FailsOnly (EngineError.OfRun E) (handleTask d ctx t e otherwise) := by
  unfold handleTask
  split
  · exact handleMultiInstanceStart_ofRun hE h
  · exact hother

theorem handleManualTask_ofRun (hE : ctx.options.evaluate = E) {e : TaskElement}
    (h : d.Continues e.outgoingFlows) :
    FailsOnly (EngineError.OfRun E) (handleManualTask d ctx t e) := by
  refine handleTask_ofRun hE h ?_
  split
  · exact handleMultiInstanceChildCompletion_ofRun hE h
  · exact advanceToken_ofRun h

/-- A turn at an element where nothing is missing. -/
theorem processToken_ofRun (hE : ctx.options.evaluate = E) (hat : d.Stands t.elementId)
    (hinside : ∀ s, truthy t.subProcessInstanceId = some s → d.Stands s) :
    FailsOnly (EngineError.OfRun E) (processToken d ctx t) := by
  obtain ⟨e, he, hserves⟩ := hat
  have hhandles := hserves.handles
  have hflows := hserves.continues
  unfold processToken
  rw [he]
  cases e with
  | startEvent _ => exact advanceToken_ofRun hflows
  | endEvent _ => exact handleEndEvent_ofRun hinside
  | serviceTask _ => exact handleTask_ofRun hE hflows (requireInstance_ofRun.bind fun _ _ => .ok _)
  | userTask _ | scriptTask _ => exact handleTask_ofRun hE hflows (.ok _)
  | manualTask _ => exact handleManualTask_ofRun hE hflows
  | intermediateCatchEvent _ => exact handleIntermediateCatchEvent_ofRun hhandles
  | intermediateThrowEvent _ => exact handleIntermediateThrowEvent_ofRun hflows
  | boundaryEvent _ => exact handleBoundaryEventWait_ofRun hhandles
  | subProcess _ _ _ _ _ => exact handleSubProcess_ofRun
  | callActivity _ => exact hhandles.elim
  | gateway g =>
    have hroutes : d.Routes g := hhandles
    unfold ProcessDefinition.Routes at hroutes
    dsimp only [bind, Except.bind]
    cases htype : g.type with
    | exclusive =>
      rw [htype] at hroutes
      exact handleExclusiveGateway_ofRun hE hroutes.1 hroutes.2
    | parallel =>
      rw [htype] at hroutes
      exact handleParallelGateway_ofRun hroutes.1 hroutes.2
    | inclusive =>
      rw [htype] at hroutes
      exact handleInclusiveGateway_ofRun hE hroutes.1 hroutes.2
    | eventBased =>
      rw [htype] at hroutes
      exact handleEventBasedGateway_ofRun hroutes.1 hroutes.2

/-! ## Commands -/

theorem requireWaiting_ofRun {action : Nat → String} {id : Nat} {instanceId : Option Nat} :
    FailsOnly (EngineError.OfRun E) (requireWaiting ctx action id instanceId) := by
  unfold requireWaiting
  refine requireToken_ofRun.bind fun token _ => ?_
  split
  · exact .error (.notWaiting _ _ _)
  · exact .ok token

theorem autoResume_ofRun : FailsOnly (EngineError.OfRun E) (autoResume ctx) := by
  refine requireInstance_ofRun.bind fun _ _ => ?_
  split
  · exact .ok _
  · exact .ok ctx

theorem emitChildCompleted_ofRun {e : BpmnFlowElement} :
    FailsOnly (EngineError.OfRun E) (emitChildCompleted ctx t e) := by
  unfold emitChildCompleted
  split
  · exact requireInstance_ofRun.bind fun _ _ => .ok _
  · exact .ok ctx

theorem recordCompensationIfNeeded_ofRun {e : BpmnFlowElement} :
    FailsOnly (EngineError.OfRun E) (recordCompensationIfNeeded d ctx t e) := by
  unfold recordCompensationIfNeeded
  split
  · exact .ok ctx
  · split
    · exact .ok ctx
    · exact requireInstance_ofRun.bind fun _ _ => .ok _

theorem handleCompensationHandlerCompletion_ofRun {throwToken : Token}
    (hat : d.Stands throwToken.elementId)
    (hinside : ∀ s, truthy throwToken.subProcessInstanceId = some s → d.Stands s) :
    FailsOnly (EngineError.OfRun E) (handleCompensationHandlerCompletion d ctx t throwToken) := by
  unfold handleCompensationHandlerCompletion
  simp only
  split
  · obtain ⟨e, he, hserves⟩ := hat
    rw [he]
    refine requireInstance_ofRun.bind fun _ _ => FailsOnly.bind (.ok e) fun _ hok => ?_
    cases hok
    split
    · rename_i s _ hs
      split
      · exact fireCancelBoundary_ofRun (hinside s hs)
      · exact .ok _
    · exact advanceToken_ofRun hserves.continues
  · exact .ok _

/-- Nothing is missing where the tokens of the context stand. -/
def ExecutionContext.Stands (d : ProcessDefinition) (ctx : ExecutionContext) : Prop :=
  ∀ t ∈ ctx.tokenMap.values, d.Stands t.elementId ∧
    ∀ s, truthy t.subProcessInstanceId = some s → d.Stands s

theorem Pool.Placed.stands (hd : d.Sturdy) (h : ctx.pool.Placed d) : ctx.Stands d := fun t ht =>
  have hplaced := h.tokens t.erase (ctx.mem_pool ht)
  ⟨hplaced.stands hd, fun _ hs => hplaced.inside hd hs⟩

theorem handleCompleteTask_ofRun (hE : ctx.options.evaluate = E) (h : ctx.Stands d) {id : Nat}
    {vars : Option Variables} :
    FailsOnly (EngineError.OfRun E) (handleCompleteTask d ctx id vars) := by
  unfold handleCompleteTask
  refine requireWaiting_ofRun.bind fun w hw => autoResume_ofRun.bind fun resumed hresumed => ?_
  refine mergeOutput_ofRun.bind fun merged hmerged => ?_
  obtain ⟨hget, -⟩ := requireWaiting_spec hw
  obtain ⟨e, he, hserves⟩ := (h w (KeyedMap.mem_of_get? hget)).1
  have hmap : merged.tokenMap = ctx.tokenMap :=
    (mergeOutput_tokenMap hmerged).trans (autoResume_tokenMap hresumed)
  rw [he]
  refine FailsOnly.bind (.ok e) fun _ hok => ?_
  cases hok
  split
  · refine emitChildCompleted_ofRun.bind fun c hc => ?_
    refine handleMultiInstanceChildCompletion_ofRun ?_ hserves.continues
    rw [(emitChildCompleted_acts hc).1.options, mergeOutput_options hmerged,
      autoResume_options hresumed]
    exact hE
  · rename_i throwToken hrole
    have hthrow := mem_of_completionRole hrole
    rw [hmap] at hthrow
    exact handleCompensationHandlerCompletion_ofRun (h throwToken hthrow).1 (h throwToken hthrow).2
  · refine requireInstance_ofRun.bind fun _ _ => recordCompensationIfNeeded_ofRun.bind fun _ _ => ?_
    exact advanceToken_ofRun hserves.continues

theorem type_of_matching {id code : String} {b : BoundaryEventElement}
    (h : d.findMatchingErrorBoundary id code = some b) : b.eventDefinition.type = .error := by
  unfold ProcessDefinition.findMatchingErrorBoundary at h
  have hmem : b ∈ (d.findBoundariesFor id).filter (·.eventDefinition.type = .error) := by
    rcases Option.or_eq_some_iff.1 h with h | ⟨-, h⟩
    · exact List.mem_of_find?_eq_some h
    · exact List.mem_of_find?_eq_some h
  simpa using (List.mem_filter.1 hmem).2

theorem handleFailServiceTask_ofRun (h : ctx.Stands d) {id : Nat} {code message : String} :
    FailsOnly (EngineError.OfRun E) (handleFailServiceTask d ctx id code message) := by
  unfold handleFailServiceTask
  refine requireWaiting_ofRun.bind fun w hw => requireInstance_ofRun.bind fun _ _ => ?_
  obtain ⟨hget, -⟩ := requireWaiting_spec hw
  obtain ⟨e, he, hserves⟩ := (h w (KeyedMap.mem_of_get? hget)).1
  simp only
  split
  · rename_i b hb
    refine moveTokenToFlows_ofRun (hserves.catches b ?_ (.inl ?_))
    · rw [ProcessDefinition.getElement_id he]
      exact mem_findBoundariesFor_of_matching hb
    · exact type_of_matching hb
  · exact .ok _

theorem handleFireTimer_ofRun (hd : d.Sturdy) (hE : ctx.options.evaluate = E)
    (h : ctx.pool.Placed d) {id : Nat} :
    FailsOnly (EngineError.OfRun E) (handleFireTimer d ctx id) := by
  unfold handleFireTimer
  refine requireWaiting_ofRun.bind fun w hw => ?_
  obtain ⟨hget, -⟩ := requireWaiting_spec hw
  split
  · exact advance_ofRun (h.stands hd w (KeyedMap.mem_of_get? hget)).1
  · refine handleCompleteTask_ofRun ?_ ?_
    · rw [(cancelEbgSiblings_acts ctx w).options]
      exact hE
    · refine Pool.Placed.stands hd ?_
      rw [pool_cancelEbgSiblings]
      exact h.frame (.clearSiblings _ _) fun r hr =>
        h.records r (Pool.records_clearSiblings ctx.pool w.erase ▸ hr)

theorem resumeTargets_ofRun (h : ctx.Stands d) {isTarget : Token → Bool} {vars : Option Variables} :
    FailsOnly (EngineError.OfRun E) (resumeTargets d ctx isTarget vars) := by
  refine .foldlM (fun c w hw => ?_) ctx
  have hstands := (h w (List.mem_of_mem_filter hw)).1
  refine requireToken_ofRun.bind fun _ _ => ?_
  split
  · exact .ok c
  · exact mergeOutput_ofRun.bind fun _ _ => advance_ofRun hstands

theorem handleCommand_ofRun (hd : d.Sturdy) (hE : ctx.options.evaluate = E)
    (hplaced : ctx.pool.Placed d) {command : EngineCommand} :
    FailsOnly (EngineError.OfRun E) (handleCommand d ctx command) := by
  have h := hplaced.stands hd
  cases command with
  | startProcess vars correlationKey businessKey =>
    exact (getElement_ofRun hd.start).bind fun _ _ => .ok _
  | completeServiceTask _ _ | completeUserTask _ _ _ => exact handleCompleteTask_ofRun hE h
  | failServiceTask _ _ _ => exact handleFailServiceTask_ofRun h
  | fireTimer _ => exact handleFireTimer_ofRun hd hE hplaced
  | deliverMessage _ _ | broadcastSignal _ _ => exact resumeTargets_ofRun h
  | suspendInstance =>
    refine requireInstance_ofRun.bind fun inst _ => ?_
    split
    · exact .error (.notActive inst)
    · exact .ok _
  | resumeInstance =>
    refine requireInstance_ofRun.bind fun inst _ => ?_
    split
    · exact .error (.notSuspended inst)
    · exact .ok _
  | cancelInstance => exact requireInstance_ofRun.bind fun _ _ => .ok _

/-! ## Whole calls -/

theorem handleFailServiceTask_options {id : Nat} {code message : String}
    (h : handleFailServiceTask d ctx id code message = .ok ctx') : ctx'.options = ctx.options := by
  unfold handleFailServiceTask at h
  obtain ⟨w, -, h⟩ := bind_eq_ok_iff.1 h
  obtain ⟨inst, -, h⟩ := bind_eq_ok_iff.1 h
  simp only at h
  split at h
  · rw [(moveTokenToFlows_acts h).options]
    exact (cancelFailed_acts _ w).options
  · rw [← Except.ok.inj h]
    rfl

theorem handleCompleteTask_options {id : Nat} {vars : Option Variables}
    (h : handleCompleteTask d ctx id vars = .ok ctx') : ctx'.options = ctx.options := by
  obtain ⟨_, _, _, -, -, hresumed, -, hacts⟩ := handleCompleteTask_acts h
  rw [hacts.options, autoResume_options hresumed]

/-- No command changes the options. -/
theorem handleCommand_options {command : EngineCommand}
    (h : handleCommand d ctx command = .ok ctx') : ctx'.options = ctx.options := by
  cases command with
  | startProcess _ _ _ =>
    obtain ⟨_, -, h⟩ := bind_eq_ok_iff.1 h
    rw [← Except.ok.inj h]
    rfl
  | completeServiceTask _ _ | completeUserTask _ _ _ => exact handleCompleteTask_options h
  | failServiceTask _ _ _ => exact handleFailServiceTask_options h
  | fireTimer _ =>
    obtain ⟨w, -, -, ⟨-, hacts⟩ | ⟨-, hcomplete⟩⟩ := handleFireTimer_cases h
    · exact hacts.options
    · rw [handleCompleteTask_options hcomplete, (cancelEbgSiblings_acts ctx w).options]
  | deliverMessage _ _ | broadcastSignal _ _ =>
    obtain ⟨_, -, hacts⟩ := resumeTargets_acts h
    exact hacts.options
  | suspendInstance | resumeInstance =>
    obtain ⟨inst, -, h⟩ := bind_eq_ok_iff.1 h
    split at h
    · cases h
    · rw [← Except.ok.inj h]
      rfl
  | cancelInstance =>
    obtain ⟨inst, -, h⟩ := bind_eq_ok_iff.1 h
    rw [← Except.ok.inj h]
    exact (cancelTokens_acts ctx _).options

theorem runLoop_ofRun (hd : d.Sturdy) {fuel : Nat} (hcoh : ctx.pool.Coherent [])
    (hplaced : ctx.pool.Placed d) (hE : ctx.options.evaluate = E) :
    FailsOnly (EngineError.OfRun E) (runLoop d fuel ctx) := by
  induction fuel generalizing ctx with
  | zero =>
    cases hq : ctx.pendingQueue with
    | nil =>
      rw [runLoop_nil d hq]
      exact .ok ctx
    | cons t rest =>
      rw [runLoop_zero d hq]
      exact .error .outOfFuel
  | succ fuel ih =>
    cases hq : ctx.pendingQueue with
    | nil =>
      rw [runLoop_nil d hq]
      exact .ok ctx
    | cons t rest =>
      rw [runLoop_cons d hq]
      rw [pool_pop hq] at hcoh hplaced
      have hhand := coherent_push.1 hcoh
      have hbefore : Pool.Placed d { ctx with pendingQueue := rest }.pool :=
        ⟨hplaced.tokens, hplaced.records⟩
      have ht : t.erase.Placed d := hbefore.holds (hhand.holds List.mem_cons_self)
      have hin : ∀ s, truthy t.subProcessInstanceId = some s → d.Stands s := fun s hs =>
        ht.inside hd hs
      have hat : d.Stands t.elementId := ht.stands hd
      have hopts : { ctx with pendingQueue := rest }.options.evaluate = E := hE
      refine (processToken_ofRun hopts hat hin).bind fun mid hmid => ?_
      obtain ⟨_, -, hacts⟩ := processToken_acts hmid
      have hturned := processToken_turned hhand hmid
      refine ih (Turned.coherent hhand hturned) (hbefore.turned hd hhand hturned) ?_
      rw [hacts.options]
      exact hopts

/-- In a definition where nothing is missing at the elements that a token can get to, no call fails
for the definition's sake. -/
theorem ofRun_of_sturdy (hd : d.Sturdy) {steps : List Step} {fuel : Nat} {command : EngineCommand}
    {state : Option EngineState} {options : ExecuteOptions} {e : EngineError}
    (call : Call d steps command state options)
    (h : execute d fuel command state options = .error e) : e.OfRun options.evaluate := by
  have htrace := call.trace.1
  have hcoh := htrace.coherent
  have hplaced := htrace.placed hd
  have hE : (ExecutionContext.create state options).options.evaluate = options.evaluate := by
    cases state <;> rfl
  refine (handleCommand_ofRun hd hE hplaced).bind (fun mid hmid => ?_) e h
  have hcommanded := handleCommand_commanded hcoh.numbered hmid
  refine FailsOnly.bind ?_ fun _ _ => requireInstance_ofRun.bind fun _ _ => .ok _
  refine runLoop_ofRun hd (hcommanded.coherent hcoh) (hplaced.commanded hd hcoh hcommanded) ?_
  rw [handleCommand_options hmid]
  exact hE

/-! ## Examples -/

open Diagram

/-- Somebody completes a task that is not there: that is nothing against the two user tasks of the
diagram. -/
theorem ofRun_interview : interview.Sturdy ∧ ∃ (r : Replay) (e : EngineError),
    Call interview r.steps (.completeUserTask 9 "user" none) (some r.state)
      (stopped always r.nextId) ∧
    execute interview 10 (.completeUserTask 9 "user" none) (some r.state)
      (stopped always r.nextId) =
      .error e ∧ e.OfRun always := by
  have hd : interview.Sturdy := .of_all (by decide +kernel) (by decide +kernel)
  obtain ⟨r, hrun, htest⟩ := exists_run_of_replay interview always 10 none []
    (fun r => (execute interview 10 (.completeUserTask 9 "user" none) (some r.state)
      (stopped always r.nextId)).toOption.isNone) (by decide +kernel)
  have call : Call interview r.steps (.completeUserTask 9 "user" none) (some r.state)
      (stopped always r.nextId) := .next hrun _ (le_refl _)
  cases h : execute interview 10 (.completeUserTask 9 "user" none) (some r.state)
      (stopped always r.nextId) with
  | ok result => simp [h, Except.toOption] at htest
  | error e => exact ⟨hd, r, e, call, h, ofRun_of_sturdy hd call h⟩

/-- After a user task, a sub-process whose only flow leads to an element that the document lacks. -/
def lostWay : List XmlElement :=
  [tag "definitions" [] [tag "process" [("id", "process")]
    [tag "startEvent" [("id", "start")] [outgoing "toAsk"],
      tag "userTask" [("id", "ask")] [outgoing "toSub"],
      tag "subProcess" [("id", "sub")]
        [outgoing "toEnd", tag "startEvent" [("id", "inStart")] [outgoing "lost"],
          flowTag "lost" "inStart" "gone"],
      tag "endEvent" [("id", "end")] [], flowTag "toAsk" "start" "ask",
      flowTag "toSub" "ask" "sub", flowTag "toEnd" "sub" "end"]]]

/-- An element is missing. -/
def goneMessage : String := "Element \"gone\" not found in definition \"process\""

theorem not_ofRun_gone : ¬ (EngineError.definitionError goneMessage).OfRun always := by
  intro h
  generalize he : EngineError.definitionError goneMessage = e at h
  cases h with
  | evaluation h => cases h
  | noChoice gatewayId =>
    have hlist := congrArg String.toList (EngineError.definitionError.inj he)
    simp [goneMessage, toString] at hlist
  | noPath gatewayId =>
    have hlist := congrArg String.toList (EngineError.definitionError.inj he)
    simp [goneMessage, toString] at hlist
  | _ => cases he

/-- The user task is waited for, and its completion fails since the element is missing. -/
def Replay.getsLost (d : ProcessDefinition) (r : Replay) : Bool :=
  r.state.tokens.any (fun t =>
    t.id = 3 ∧ t.status = .waiting ∧ t.waitingFor = some { type := .userTask }) &&
    match execute d 10 (.completeUserTask 3 "user" none) (some r.state)
      (stopped always r.nextId) with
    | .error e => e = .definitionError goneMessage
    | .ok _ => false

/-- The document is accepted without errors, and the definition is deployable.  When the user task
is completed, the engine gets lost in the sub-process. -/
theorem not_ofRun_lostWay : ∃ (parsed : ParseResult) (r : Replay) (e : EngineError),
    parseBpmn lostWay = .ok parsed ∧ parsed.errors = [] ∧ parsed.definition.isDeployable = true ∧
    Call parsed.definition r.steps (.completeUserTask 3 "user" none) (some r.state)
      (stopped always r.nextId) ∧
    (∃ t ∈ r.state.tokens, t.id = 3 ∧ t.status = .waiting ∧
    t.waitingFor = some { type := .userTask }) ∧
    execute parsed.definition 10 (.completeUserTask 3 "user" none) (some r.state)
      (stopped always r.nextId) = .error e ∧ ¬ e.OfRun always := by
  have htest : (parseBpmn lostWay).toOption.any (fun parsed => parsed.errors = [] &&
      parsed.definition.isDeployable && (replay parsed.definition always 10 none []).toOption.any
        (Replay.getsLost parsed.definition)) = true := by decide +kernel
  cases hparse : parseBpmn lostWay with
  | error e => simp [hparse, Except.toOption] at htest
  | ok parsed =>
    rw [hparse] at htest
    obtain ⟨haccepted, hlost⟩ := Bool.and_eq_true_iff.1 htest
    obtain ⟨herrors, hdeployable⟩ := Bool.and_eq_true_iff.1 haccepted
    obtain ⟨r, hrun, hr⟩ := exists_run_of_replay _ _ _ _ _ _ hlost
    obtain ⟨hwaits, hfails⟩ := Bool.and_eq_true_iff.1 hr
    refine ⟨parsed, r, .definitionError goneMessage, rfl, of_decide_eq_true herrors, hdeployable,
      .next hrun _ (le_refl _), ?_, ?_, not_ofRun_gone⟩
    · obtain ⟨t, ht, h⟩ := List.any_eq_true.1 hwaits
      exact ⟨t, ht, of_decide_eq_true h⟩
    · split at hfails
      · rename_i e he
        rw [he, of_decide_eq_true hfails]
      · cases hfails

end NexusWorkflow
