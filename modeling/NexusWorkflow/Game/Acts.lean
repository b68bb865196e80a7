import NexusWorkflow.Game.HandlerEffects
import NexusWorkflow.Model.Levels

/-!
# Acts

What a handler does to a context, act by act.  Most acts are silent: they move tokens, read the
clock, or emit an event that says no more than that tokens have moved.  Those that matter to the
instance, to the variables and to what tokens wait for carry a label, and every handler has its list
of labels.
-/

namespace NexusWorkflow

open ExecutionContext

/-- The event says neither that a token waits, nor that something happens to the instance, nor that
an error was thrown. -/
def ExecutionEvent.plain : ExecutionEvent → Bool
  | .processInstanceStarted _ _ _ | .processInstanceCompleted _ _ | .processInstanceTerminated _ _
  | .processInstanceSuspended _ | .processInstanceResumed _ | .tokenWaiting _ _ _ _
  | .errorThrown _ _ _ _ => false
  | _ => true

inductive Label where
  /-- A token starts to wait, and an event says so. -/
  | waits (t : Token) (condition : WaitCondition)
  /-- The instance completes. -/
  | completes
  /-- A scope is opened inside another one. -/
  | opens (parent : Nat) (vars : Variables)
  /-- Variables are merged into a scope. -/
  | merges (scopeId : Nat) (vars : Variables)

/-- The label is about scopes. -/
def Label.ofScope : Label → Bool
  | .opens _ _ | .merges _ _ => true
  | _ => false

inductive Act (ctx : ExecutionContext) : Option Label → ExecutionContext → Prop
  | now : Act ctx none ctx.now.2
  | newId : Act ctx none ctx.newId.2
  | say (event : ExecutionEvent) (h : event.plain = true) : Act ctx none (ctx.emit event)
  | update (t : Token) : Act ctx none (ctx.updateToken t)
  | create (instanceId : Nat) (elementId : String) (elementType : BpmnElementType) (scopeId : Nat)
      (via : Option String) (parent : Option Nat) (tag : Option String) :
      Act ctx none (ctx.createToken instanceId elementId elementType scopeId via parent tag).2
  | enqueue (t : Token) : Act ctx none (ctx.enqueuePending t)
  | joins (joins : KeyedMap GatewayJoinState.gatewayId) :
      Act ctx none { ctx with joinStateMap := joins }
  | records (records : List CompensationRecord) :
      Act ctx none { ctx with compensationList := records }
  | wait (t : Token) (condition : WaitCondition) :
      Act ctx (some (.waits t condition)) (suspendTokenWithCondition ctx t condition)
  | complete {ctx' : ExecutionContext} (h : completeInstance ctx = .ok ctx') :
      Act ctx (some .completes) ctx'
  | open (parent : Nat) (vars : Variables) : Act ctx (some (.opens parent vars))
      (ctx.newId.2.saveScope { id := ctx.newId.1, parentScopeId := some parent, vars })
  | merge {scopeId : Nat} {vars : Variables} {ctx' : ExecutionContext}
      (h : ctx.mergeVariables scopeId vars = .ok ctx') : Act ctx (some (.merges scopeId vars)) ctx'

/-- Acts one after the other, and their labels. -/
inductive Acts : List Label → ExecutionContext → ExecutionContext → Prop
  | refl (ctx : ExecutionContext) : Acts [] ctx ctx
  | silent {labels : List Label} {ctx mid ctx' : ExecutionContext} (h : Acts labels ctx mid)
      (a : Act mid none ctx') : Acts labels ctx ctx'
  | loud {labels : List Label} {label : Label} {ctx mid ctx' : ExecutionContext}
      (h : Acts labels ctx mid) (a : Act mid (some label) ctx') : Acts (labels ++ [label]) ctx ctx'

variable {d : ProcessDefinition} {ctx mid ctx' : ExecutionContext} {labels more : List Label}
  {label : Label}

namespace Acts

theorem one (a : Act ctx none ctx') : Acts [] ctx ctx' := .silent (.refl ctx) a

theorem single (a : Act ctx (some label) ctx') : Acts [label] ctx ctx' := .loud (.refl ctx) a

theorem trans (h : Acts labels ctx mid) (h' : Acts more mid ctx') :
    Acts (labels ++ more) ctx ctx' := by
  induction h' with
  | refl => simpa using h
  | silent _ a ih => exact (ih h).silent a
  | loud _ a ih =>
    rw [← List.append_assoc]
    exact (ih h).loud a

theorem after (h : Acts [] ctx mid) (h' : Acts labels mid ctx') : Acts labels ctx ctx' :=
  h.trans h'

theorem before (h : Acts labels ctx mid) (h' : Acts [] mid ctx') : Acts labels ctx ctx' := by
  simpa using h.trans h'

/-- Loops of which every round is silent. -/
theorem foldl {α : Type} {f : ExecutionContext → α → ExecutionContext}
    (hf : ∀ c a, Acts [] c (f c a)) (l : List α) (ctx : ExecutionContext) :
    Acts [] ctx (l.foldl f ctx) := by
  induction l generalizing ctx with
  | nil => exact .refl ctx
  | cons a l ih => exact (hf ctx a).after (ih (f ctx a))

theorem foldlM {α : Type} {f : ExecutionContext → α → Except EngineError ExecutionContext}
    (hf : ∀ c c' a, f c a = .ok c' → Acts [] c c') {l : List α}
    (h : l.foldlM f ctx = .ok ctx') : Acts [] ctx ctx' := by
  induction l generalizing ctx with
  | nil =>
    rw [List.foldlM_nil, Except.pure_eq_ok_iff] at h
    exact h ▸ .refl ctx
  | cons a l ih =>
    obtain ⟨mid, hmid, h⟩ := Except.foldlM_cons_eq_ok_iff.1 h
    exact (hf ctx mid a hmid).after (ih h)

end Acts

/-! ## What acts do to events and to the instance -/

/-- An event that a round of the run loop can emit. -/
def ExecutionEvent.ofTurn (event : ExecutionEvent) : Bool :=
  match event with
  | .tokenWaiting _ _ _ _ | .processInstanceCompleted _ _ => true
  | _ => event.plain

theorem ExecutionEvent.ofTurn_of_plain {event : ExecutionEvent} (h : event.plain = true) :
    event.ofTurn = true := by
  cases event <;> first | exact h | rfl

theorem completeInstance_eq (h : completeInstance ctx = .ok ctx') :
    ∃ inst now, ctx.inst = some inst ∧
      ctx'.inst = some { inst with status := .completed, completedAt := some now } ∧
      ctx'.events = ctx.events ++ [.processInstanceCompleted inst.id (now - inst.startedAt)] := by
  unfold completeInstance at h
  obtain ⟨inst, hinst, h⟩ := Except.bind_eq_ok_iff.1 h
  rw [← Except.ok.inj h]
  exact ⟨inst, ctx.now.1, requireInstance_eq hinst, rfl, rfl⟩

theorem mergeVariables_eq {scopeId : Nat} {vars : Variables}
    (h : ctx.mergeVariables scopeId vars = .ok ctx') :
    ∃ scope, ctx.scopeMap.get? scopeId = some scope ∧
      ctx' = ctx.saveScope { scope with vars := scope.vars.merge vars } := by
  unfold mergeVariables at h
  split at h
  · cases h
  · rename_i scope hscope
    exact ⟨scope, hscope, (Except.ok.inj h).symm⟩

/-- Events are only added. -/
theorem Act.events {label : Option Label} (a : Act ctx label ctx') :
    ∃ more, ctx'.events = ctx.events ++ more ∧ ∀ e ∈ more, e.ofTurn = true := by
  cases a with
  | say event h =>
    exact ⟨[event], rfl, List.forall_mem_singleton.2 (ExecutionEvent.ofTurn_of_plain h)⟩
  | wait t condition => exact ⟨_, rfl, List.forall_mem_singleton.2 rfl⟩
  | complete h =>
    obtain ⟨inst, now, -, -, hevents⟩ := completeInstance_eq h
    exact ⟨_, hevents, List.forall_mem_singleton.2 rfl⟩
  | merge h =>
    obtain ⟨scope, -, rfl⟩ := mergeVariables_eq h
    exact ⟨[], (List.append_nil _).symm, List.forall_mem_nil _⟩
  | _ => exact ⟨[], (List.append_nil _).symm, List.forall_mem_nil _⟩

theorem Acts.events (h : Acts labels ctx ctx') :
    ∃ more, ctx'.events = ctx.events ++ more ∧ ∀ e ∈ more, e.ofTurn = true := by
  have happend : ∀ {c mid c' : ExecutionContext} {label : Option Label},
      (∃ more, mid.events = c.events ++ more ∧ ∀ e ∈ more, e.ofTurn = true) → Act mid label c' →
        ∃ more, c'.events = c.events ++ more ∧ ∀ e ∈ more, e.ofTurn = true := by
    rintro c mid c' label ⟨more, heq, hmore⟩ a
    obtain ⟨last, hlast, hof⟩ := a.events
    exact ⟨more ++ last, by rw [hlast, heq, List.append_assoc],
      List.forall_mem_append.2 ⟨hmore, hof⟩⟩
  induction h with
  | refl => exact ⟨[], (List.append_nil _).symm, List.forall_mem_nil _⟩
  | silent _ a ih => exact happend ih a
  | loud _ a ih => exact happend ih a

theorem Acts.options (h : Acts labels ctx ctx') : ctx'.options = ctx.options := by
  have hact : ∀ {c c' : ExecutionContext} {label : Option Label}, Act c label c' →
      c'.options = c.options := by
    intro c c' label a
    cases a with
    | complete h =>
      unfold completeInstance at h
      obtain ⟨inst, -, h⟩ := Except.bind_eq_ok_iff.1 h
      rw [← Except.ok.inj h]
      rfl
    | merge h =>
      obtain ⟨scope, -, rfl⟩ := mergeVariables_eq h
      rfl
    | _ => rfl
  induction h with
  | refl => rfl
  | silent _ a ih | loud _ a ih => exact (hact a).trans ih

theorem Acts.head?_events (h : Acts labels ctx ctx') {event : ExecutionEvent}
    (hhead : ctx.events.head? = some event) : ctx'.events.head? = some event := by
  obtain ⟨more, heq, -⟩ := h.events
  rw [heq, List.head?_append, hhead]
  rfl

/-- What the events of acts tell, and what the labels do: nothing of a plain event, and nothing of a
label about scopes. -/
theorem Acts.filterMap_events {α : Type} {f : ExecutionEvent → Option α} {g : Label → Option α}
    (hplain : ∀ e : ExecutionEvent, e.plain = true → f e = none)
    (hwait : ∀ (t : Token) (c : WaitCondition),
      f (.tokenWaiting t.instanceId t.id t.elementId c) = g (.waits t c))
    (hcomplete : ∀ id duration, f (.processInstanceCompleted id duration) = g .completes)
    (hscope : ∀ label : Label, label.ofScope = true → g label = none) (h : Acts labels ctx ctx') :
    ctx'.events.filterMap f = ctx.events.filterMap f ++ labels.filterMap g := by
  induction h with
  | refl => simp
  | silent _ a ih =>
    rw [← ih]
    cases a with
    | say event h => simp [emit, hplain event h]
    | _ => rfl
  | @loud labels _ _ mid _ _ a ih =>
    rw [List.filterMap_append, ← List.append_assoc, ← ih]
    cases a with
    | wait t condition =>
      have hevents : (suspendTokenWithCondition mid t condition).events =
        mid.events ++ [.tokenWaiting t.instanceId t.id t.elementId condition] := rfl
      rw [hevents, List.filterMap_append, List.filterMap_cons, List.filterMap_cons,
        hwait t condition]
      rfl
    | complete h =>
      obtain ⟨inst, now, -, -, hevents⟩ := completeInstance_eq h
      rw [hevents, List.filterMap_append, List.filterMap_cons, List.filterMap_cons, hcomplete]
      rfl
    | @merge scopeId vars _ h =>
      obtain ⟨scope, -, rfl⟩ := mergeVariables_eq h
      simp [hscope (.merges scopeId vars) rfl, saveScope]
    | «open» parent vars => simp [hscope (.opens parent vars) rfl, saveScope, newId]

/-- Only the completion of the instance changes it. -/
theorem Acts.inst (h : Acts labels ctx ctx') :
    ctx'.inst = ctx.inst ∨
      .completes ∈ labels ∧ ctx'.inst.map (·.status) = some .completed := by
  induction h with
  | refl => exact .inl rfl
  | silent _ a ih =>
    cases a with
    | _ => exact ih
  | loud _ a ih =>
    cases a with
    | complete h =>
      obtain ⟨inst, now, -, hinst, -⟩ := completeInstance_eq h
      refine .inr ⟨List.mem_append_right _ (List.mem_singleton_self _), ?_⟩
      rw [hinst]
      rfl
    | merge h =>
      obtain ⟨scope, -, rfl⟩ := mergeVariables_eq h
      exact ih.imp_right fun ⟨hmem, hstatus⟩ => ⟨List.mem_append_left _ hmem, hstatus⟩
    | _ => exact ih.imp_right fun ⟨hmem, hstatus⟩ => ⟨List.mem_append_left _ hmem, hstatus⟩

/-- A completed instance is the outcome of the label. -/
theorem Acts.completed (h : Acts labels ctx ctx') (hmem : .completes ∈ labels) :
    ctx'.inst.map (·.status) = some .completed := by
  induction h with
  | refl => cases hmem
  | silent _ a ih =>
    cases a with
    | _ => exact ih hmem
  | loud _ a ih =>
    cases a with
    | complete h =>
      obtain ⟨inst, now, -, hinst, -⟩ := completeInstance_eq h
      rw [hinst]
      rfl
    | merge h =>
      obtain ⟨scope, -, rfl⟩ := mergeVariables_eq h
      exact ih (by simpa using hmem)
    | _ => exact ih (by simpa using hmem)

/-! ## Moving and cancelling tokens -/

theorem moveTokenToFlow_acts {t : Token} {flowId : String}
    (h : moveTokenToFlow d ctx t flowId = .ok ctx') : Acts [] ctx ctx' := by
  unfold moveTokenToFlow at h
  obtain ⟨flow, -, h⟩ := Except.bind_eq_ok_iff.1 h
  obtain ⟨element, -, h⟩ := Except.bind_eq_ok_iff.1 h
  rw [← Except.ok.inj h]
  exact ((Acts.one (.create ..)).silent (.say _ rfl)).silent (.enqueue _)

theorem moveTokenToFlows_acts {t : Token} {flows : List String}
    (h : moveTokenToFlows d ctx t flows = .ok ctx') : Acts [] ctx ctx' :=
  Acts.foldlM (fun _ _ _ h => moveTokenToFlow_acts h) h

theorem setStatus_acts (ctx : ExecutionContext) (t : Token) (status : TokenStatus) :
    Acts [] ctx (ctx.setStatus t status) :=
  (Acts.one .now).silent (.update _)

theorem advanceToken_acts {t : Token} {e : BpmnFlowElement}
    (h : advanceToken d ctx t e = .ok ctx') : Acts [] ctx ctx' :=
  (setStatus_acts ctx t .completed).after (moveTokenToFlows_acts h)

theorem advanceTokenFlows_acts {t : Token} (h : advanceTokenFlows d ctx t = .ok ctx') :
    Acts [] ctx ctx' := by
  unfold advanceTokenFlows at h
  obtain ⟨element, -, h⟩ := Except.bind_eq_ok_iff.1 h
  exact moveTokenToFlows_acts h

theorem cancelToken_acts (ctx : ExecutionContext) (t : Token) (now : Time) :
    Acts [] ctx (ctx.cancelToken t now) :=
  (Acts.one (.update _)).silent (.say _ rfl)

theorem cancelTokens_acts (ctx : ExecutionContext) (tokens : List Token) :
    Acts [] ctx (ctx.cancelTokens tokens) :=
  (Acts.one .now).after (Acts.foldl (fun c t => cancelToken_acts c t _) tokens _)

theorem cancelHostTaskAndBoundaries_acts (ctx : ExecutionContext) (attachedToRef : String)
    (firing : Option Nat) : Acts [] ctx (cancelHostTaskAndBoundaries ctx attachedToRef firing) :=
  cancelTokens_acts ctx _

/-- What a caught failure of the task does to the task and its boundary events. -/
theorem cancelFailed_acts (ctx : ExecutionContext) (t : Token) :
    Acts [] ctx (cancelHostTaskAndBoundaries
      (ctx.now.2.cancelToken t ctx.now.1) t.elementId none) :=
  ((Acts.one .now).after (cancelToken_acts _ t _)).after (cancelHostTaskAndBoundaries_acts _ _ _)

theorem cancelEbgSiblings_acts (ctx : ExecutionContext) (t : Token) :
    Acts [] ctx (cancelEbgSiblings ctx t) := by
  unfold cancelEbgSiblings
  cases t.parentTokenId with
  | none => exact .refl ctx
  | some parent => exact cancelTokens_acts ctx _

theorem spawnBoundaryTokens_acts (d : ProcessDefinition) (ctx : ExecutionContext) (t : Token)
    (elementId : String) : Acts [] ctx (spawnBoundaryTokens d ctx t elementId) :=
  Acts.foldl (fun _ _ => (Acts.one (.create ..)).silent (.enqueue _)) _ ctx

/-! ## Variables -/

theorem mergeOutput_acts {scopeId : Nat} {vars : Option Variables}
    (h : ctx.mergeOutput scopeId vars = .ok ctx') :
    (Acts [] ctx ctx' ∧ ctx' = ctx) ∨
      ∃ values, vars = some values ∧ Acts [.merges scopeId values] ctx ctx' := by
  unfold mergeOutput at h
  split at h
  · rename_i values
    split at h
    · rw [← Except.ok.inj h]
      exact .inl ⟨.refl ctx, rfl⟩
    · exact .inr ⟨values, rfl, .single (.merge h)⟩
  · rw [← Except.ok.inj h]
    exact .inl ⟨.refl ctx, rfl⟩

/-- What the variables of the first inner token come to, merged into the scope of the outer one. -/
inductive Propagates (ctx : ExecutionContext) (s : String) : List Label → Prop
  | none : Propagates ctx s []
  | merge {outer first : Token} {vars : Variables}
      (houter : ctx.getAllTokens.find? (fun t => t.elementId = s ∧ t.status = .waiting) =
      some outer)
      (hfirst : (ctx.getAllTokens.filter fun t => t.subProcessInstanceId = some s).head? =
        some first)
      (hvars : ctx.resolveScope first.scopeId = .ok vars) :
      Propagates ctx s [.merges outer.scopeId vars]

theorem propagateInner_acts {s : String} {outer : Token}
    (houter : ctx.getAllTokens.find? (fun t => t.elementId = s ∧ t.status = .waiting) = some outer)
    (h : propagateInner ctx (ctx.getAllTokens.filter fun t => t.subProcessInstanceId = some s)
      outer =
      .ok ctx') : ∃ labels, Propagates ctx s labels ∧ Acts labels ctx ctx' := by
  unfold propagateInner at h
  split at h
  · rw [← Except.ok.inj h]
    exact ⟨[], .none, .refl ctx⟩
  · rename_i first hfirst
    obtain ⟨vars, hvars, h⟩ := Except.bind_eq_ok_iff.1 h
    rcases mergeOutput_acts h with ⟨hacts, -⟩ | ⟨values, hvalues, hacts⟩
    · exact ⟨[], .none, hacts⟩
    · cases hvalues
      exact ⟨_, .merge houter hfirst hvars, hacts⟩

/-- The label comes from the multi-instance activity of the parent token. -/
def Label.InLoop (parent : Token) (lc : MultiInstanceLoopCharacteristics) : Label → Prop
  | .opens scopeId vars =>
      scopeId = parent.scopeId ∧ ∀ v ∈ vars.values, truthy lc.inputElement = some v.1
  | .merges scopeId vars =>
      scopeId = parent.scopeId ∧ ∀ v ∈ vars.values, truthy lc.outputCollection = some v.1
  | _ => False

theorem fst_of_mem_single {name : String} {value : VariableValue} {v : String × VariableValue}
    (h : v ∈ (Variables.single name value).values) : v.1 = name := by
  rcases KeyedMap.mem_set.1 h with rfl | ⟨h, -⟩
  · rfl
  · exact absurd h List.not_mem_nil

theorem inLoop_outputArray {parent : Token} {lc : MultiInstanceLoopCharacteristics} {name : String}
    (h : truthy lc.outputCollection = some name) (items : List Value) :
    (Label.merges parent.scopeId (outputArray name items)).InLoop parent lc := by
  refine ⟨rfl, fun v hv => ?_⟩
  rw [h, fst_of_mem_single hv]

theorem initOutputCollection_acts {t : Token} {lc : MultiInstanceLoopCharacteristics}
    (h : initOutputCollection ctx t lc = .ok ctx') :
    ∃ labels, (∀ x ∈ labels, x.InLoop t lc) ∧ Acts labels ctx ctx' := by
  unfold initOutputCollection at h
  split at h
  · rename_i name hname
    refine ⟨_, ?_, .single (.merge h)⟩
    rintro x hx
    obtain rfl := List.mem_singleton.1 hx
    exact inLoop_outputArray hname []
  · rw [← Except.ok.inj h]
    exact ⟨[], List.forall_mem_nil _, .refl ctx⟩

theorem collectOutput_acts {c p : Token} {lc : MultiInstanceLoopCharacteristics}
    (h : collectOutput ctx c p lc = .ok ctx') :
    ∃ labels, (∀ x ∈ labels, x.InLoop p lc) ∧ Acts labels ctx ctx' := by
  have hnone : ctx = ctx' → ∃ labels : List Label, (∀ x ∈ labels, x.InLoop p lc) ∧
      Acts labels ctx ctx' := by
    rintro rfl
    exact ⟨[], List.forall_mem_nil _, .refl ctx⟩
  unfold collectOutput at h
  split at h
  · rename_i _ name _ hname
    obtain ⟨childScope, -, h⟩ := Except.bind_eq_ok_iff.1 h
    split at h
    · exact hnone (Except.ok.inj h)
    · obtain ⟨parentScope, -, h⟩ := Except.bind_eq_ok_iff.1 h
      refine ⟨_, ?_, .single (.merge h)⟩
      intro x hx
      obtain rfl := List.mem_singleton.1 hx
      exact inLoop_outputArray hname _
  · exact hnone (Except.ok.inj h)

/-! ## Events and sub-processes -/

theorem handleBoundaryEventWait_acts {t : Token} {b : BoundaryEventElement}
    (h : handleBoundaryEventWait ctx t b = .ok ctx') :
    ∃ condition, b.waitCondition = some condition ∧ Acts [.waits t condition] ctx ctx' := by
  unfold handleBoundaryEventWait at h
  cases htype : b.eventDefinition.type <;> simp only [htype, Except.ok.injEq, reduceCtorEq] at h
  all_goals
    rw [← h, BoundaryEventElement.waitCondition]
    simp only [htype]
    exact ⟨_, rfl, .single (.wait ..)⟩

theorem handleIntermediateCatchEvent_acts {t : Token} {e : EventElement}
    (h : handleIntermediateCatchEvent ctx t e = .ok ctx') :
    ∃ condition, e.eventDefinition.catchCondition = some condition ∧
      Acts [.waits t condition] ctx ctx' := by
  unfold handleIntermediateCatchEvent at h
  cases htype : e.eventDefinition.type <;> simp only [htype, Except.ok.injEq, reduceCtorEq] at h
  all_goals
    rw [← h, EventDefinition.catchCondition]
    simp only [htype]
    exact ⟨_, rfl, .single (.wait ..)⟩

theorem handleSubProcess_acts {t : Token} {e : BpmnElement} {isTransaction : Bool}
    {startEventId : String} (h : handleSubProcess d ctx t e isTransaction startEventId = .ok ctx') :
    Acts [.opens t.scopeId ∅, .waits t { type := .external }] ctx ctx' := by
  unfold handleSubProcess at h
  obtain ⟨inst, -, h⟩ := Except.bind_eq_ok_iff.1 h
  rw [← Except.ok.inj h]
  have hopen : Acts [.opens t.scopeId ∅, .waits t { type := .external }] ctx _ :=
    (Acts.single (.open t.scopeId ∅)).loud (.wait t { type := .external })
  cases isTransaction with
  | false => exact ((hopen.silent (.say _ rfl)).silent (.create ..)).silent (.enqueue _)
  | true =>
    have hspawn := hopen.before (spawnBoundaryTokens_acts d _ t e.id)
    exact ((hspawn.silent (.say _ rfl)).silent (.create ..)).silent (.enqueue _)

theorem checkSubProcessCompletion_acts {s : String}
    (h : checkSubProcessCompletion d ctx s = .ok ctx') :
    ∃ labels, Propagates ctx s labels ∧ Acts labels ctx ctx' := by
  have hnone : ctx = ctx' → ∃ labels, Propagates ctx s labels ∧ Acts labels ctx ctx' := by
    rintro rfl
    exact ⟨[], .none, .refl ctx⟩
  unfold checkSubProcessCompletion at h
  simp only at h
  split at h
  · exact hnone (Except.ok.inj h)
  · split at h
    · exact hnone (Except.ok.inj h)
    · rename_i outer houter
      obtain ⟨inst, -, h⟩ := Except.bind_eq_ok_iff.1 h
      obtain ⟨mid, hmid, h⟩ := Except.bind_eq_ok_iff.1 h
      obtain ⟨element, -, h⟩ := Except.bind_eq_ok_iff.1 h
      obtain ⟨labels, hlabels, hacts⟩ := propagateInner_acts houter hmid
      exact ⟨labels, hlabels, (hacts.silent (.say _ rfl)).before (advanceToken_acts h)⟩

theorem fireCancelBoundary_acts {outer : Token} {s : String}
    (h : fireCancelBoundary d ctx outer s = .ok ctx') : Acts [] ctx ctx' := by
  unfold fireCancelBoundary at h
  split at h
  · exact Except.ok.inj h ▸ .refl ctx
  · split at h
    · exact Except.ok.inj h ▸ .refl ctx
    · rename_i b _ _ w _
      have hset := (setStatus_acts ctx w .completed).silent
        (.say (.boundaryEventTriggered outer.instanceId w.id b.id true) rfl)
      exact ((hset.silent .now).before (cancelToken_acts _ outer _)).before
        (moveTokenToFlows_acts h)

theorem startHandler_acts (find : String → Option BpmnFlowElement) (instanceId : Nat)
    (source : Token) (tag : Option String) (records : List CompensationRecord)
    (a : ExecutionContext × List CompensationRecord) :
    Acts [] a.1 (records.foldl (startHandler find instanceId source tag) a).1 := by
  induction records generalizing a with
  | nil => exact .refl _
  | cons r records ih =>
    rw [List.foldl_cons]
    refine Acts.after ?_ (ih _)
    unfold startHandler
    cases find r.handlerId with
    | none => exact .refl _
    | some e => exact ((Acts.one (.create ..)).silent (.say _ rfl)).silent (.enqueue _)

theorem handleTransactionCancel_acts {t : Token}
    (h : handleTransactionCancel d ctx t = .ok ctx') : Acts [] ctx ctx' := by
  unfold handleTransactionCancel at h
  split at h
  · exact Except.ok.inj h ▸ .refl ctx
  · obtain ⟨inst, -, h⟩ := Except.bind_eq_ok_iff.1 h
    simp only [consumeAllCompensationRecords] at h
    generalize hclear : ctx.cancelTokens _ = cleared at h
    have hcancel : Acts [] ctx cleared := hclear ▸ cancelTokens_acts ctx _
    have hstart := (hcancel.silent (.records [])).after (startHandler_acts
      (findElementInTree d.elements) inst.id t (truthy t.subProcessInstanceId)
      (latestFirst cleared.compensationList) ({ cleared with compensationList := [] }, []))
    simp_all only
    split at h
    · exact (hstart.silent (.say _ rfl)).before (fireCancelBoundary_acts h)
    · exact Except.ok.inj h ▸ hstart.silent (.say _ rfl)

/-- An end event is silent, or the instance completes, or a sub-process does. -/
theorem handleEndEvent_acts {t : Token} {e : EventElement}
    (h : handleEndEvent d ctx t e = .ok ctx') :
    Acts [] ctx ctx' ∨ Acts [.completes] ctx ctx' ∨
      ∃ s labels, truthy t.subProcessInstanceId = some s ∧
        Propagates (ctx.setStatus t .completed) s labels ∧ Acts labels ctx ctx' := by
  unfold handleEndEvent at h
  have hset := setStatus_acts ctx t .completed
  simp only at h
  split at h
  · exact .inl (hset.after (handleTransactionCancel_acts h))
  · split at h
    · generalize List.filter _ _ = others at h
      have hcancel := hset.after (Acts.foldl
        (fun c x => (Acts.one .now).after (cancelToken_acts c.now.2 x c.now.1)) others _)
      exact .inr (.inl (hcancel.loud (.complete h)))
    · split at h
      · rename_i s htag
        obtain ⟨labels, hlabels, hacts⟩ := checkSubProcessCompletion_acts h
        exact .inr (.inr ⟨s, labels, htag, hlabels, hset.after hacts⟩)
      · split at h
        · exact .inr (.inl (hset.loud (.complete h)))
        · exact .inl (Except.ok.inj h ▸ hset)

theorem consumeRecords_acts (ctx : ExecutionContext) (target : Option String) :
    Acts [] ctx (consumeRecords ctx target).2 := by
  unfold consumeRecords
  cases target with
  | none => exact .one (.records _)
  | some activity => exact .one (.records _)

theorem handleIntermediateThrowEvent_acts {t : Token} {e : EventElement}
    (h : handleIntermediateThrowEvent d ctx t e = .ok ctx') :
    Acts [] ctx ctx' ∨
      e.eventDefinition.type = .compensation ∧ Acts [.waits t { type := .external }] ctx ctx' := by
  unfold handleIntermediateThrowEvent at h
  split at h
  · rename_i hcomp
    unfold handleCompensationThrow at h
    obtain ⟨inst, -, h⟩ := Except.bind_eq_ok_iff.1 h
    simp only at h
    generalize truthy e.eventDefinition.compensationActivityRef = target at h
    have hconsume := consumeRecords_acts ctx target
    split at h
    · exact .inl ((hconsume.silent (.say _ rfl)).before (advanceToken_acts h))
    · have hpark := hconsume.loud (.wait t { type := .external })
      have hstart := startHandler_acts (fun id => d.elements.find? (·.id = id)) inst.id t none
        (consumeRecords ctx target).1 (suspendToken (consumeRecords ctx target).2 t .external, [])
      exact .inr ⟨hcomp, Except.ok.inj h ▸ (hpark.before hstart).silent (.say _ rfl)⟩
  · exact .inl (advanceToken_acts h)

/-! ## Gateways -/

theorem handleExclusiveGateway_acts {t : Token} {g : GatewayElement}
    (h : handleExclusiveGateway d ctx t g = .ok ctx') : Acts [] ctx ctx' := by
  unfold handleExclusiveGateway at h
  obtain ⟨scope, -, h⟩ := Except.bind_eq_ok_iff.1 h
  obtain ⟨flow, -, h⟩ := Except.bind_eq_ok_iff.1 h
  exact (setStatus_acts ctx t .completed).after (moveTokenToFlow_acts h)

theorem parallelJoinStart_acts {gatewayId : String} {incoming : List SequenceFlow}
    {state : ParallelGatewayJoinState}
    (h : parallelJoinStart ctx gatewayId incoming = .ok (state, ctx')) : Acts [] ctx ctx' := by
  unfold parallelJoinStart at h
  split at h
  · cases h
    exact .refl ctx
  · cases h
  · obtain ⟨inst, -, h⟩ := Except.bind_eq_ok_iff.1 h
    cases h
    exact .one .newId

theorem handleParallelGateway_acts {t : Token} {g : GatewayElement}
    (h : handleParallelGateway d ctx t g = .ok ctx') : Acts [] ctx ctx' := by
  unfold handleParallelGateway at h
  simp only at h
  split at h
  · obtain ⟨⟨state, mid⟩, hmid, h⟩ := Except.bind_eq_ok_iff.1 h
    have hset := (parallelJoinStart_acts hmid).after (setStatus_acts mid t .completed)
    simp only at h
    split at h
    · exact (hset.silent (.joins _)).after (moveTokenToFlows_acts h)
    · exact Except.ok.inj h ▸ hset.silent (.joins _)
  · obtain ⟨flows, -, h⟩ := Except.bind_eq_ok_iff.1 h
    exact (setStatus_acts ctx t .completed).after (moveTokenToFlows_acts h)

theorem registerInclusiveJoin_acts {flows : List String}
    (h : registerInclusiveJoin d ctx flows = .ok ctx') : Acts [] ctx ctx' := by
  unfold registerInclusiveJoin at h
  split at h
  · exact Except.ok.inj h ▸ .refl ctx
  · obtain ⟨inst, -, h⟩ := Except.bind_eq_ok_iff.1 h
    rw [← Except.ok.inj h]
    exact (Acts.one .newId).silent (.joins _)

theorem handleInclusiveGateway_acts {t : Token} {g : GatewayElement}
    (h : handleInclusiveGateway d ctx t g = .ok ctx') : Acts [] ctx ctx' := by
  unfold handleInclusiveGateway at h
  simp only at h
  split at h
  · split at h
    · cases h
    · cases h
    · have hset := setStatus_acts ctx t .completed
      split at h
      · exact (hset.silent (.joins _)).after (moveTokenToFlows_acts h)
      · exact Except.ok.inj h ▸ hset.silent (.joins _)
  · obtain ⟨scope, -, h⟩ := Except.bind_eq_ok_iff.1 h
    obtain ⟨flows, -, h⟩ := Except.bind_eq_ok_iff.1 h
    obtain ⟨mid, hmid, h⟩ := Except.bind_eq_ok_iff.1 h
    exact ((registerInclusiveJoin_acts hmid).after (setStatus_acts mid t .completed)).after
      (moveTokenToFlows_acts h)

theorem handleEventBasedGateway_acts {t : Token} {g : GatewayElement}
    (h : handleEventBasedGateway d ctx t g = .ok ctx') : Acts [] ctx ctx' := by
  unfold handleEventBasedGateway at h
  obtain ⟨_, -, h⟩ := Except.bind_eq_ok_iff.1 h
  obtain ⟨mid, hmid, h⟩ := Except.bind_eq_ok_iff.1 h
  have hbranches : Acts [] (ctx.setStatus t .completed) mid := by
    refine Acts.foldlM (fun c c' flow h => ?_) hmid
    unfold spawnBranch at h
    obtain ⟨element, -, h⟩ := Except.bind_eq_ok_iff.1 h
    rw [← Except.ok.inj h]
    exact ((Acts.one (.create ..)).silent (.say _ rfl)).silent (.enqueue _)
  rw [← Except.ok.inj h]
  exact ((setStatus_acts ctx t .completed).after hbranches).silent (.say _ rfl)

/-! ## Multi-instance activities -/

theorem spawnMultiInstanceChild_acts (ctx : ExecutionContext) (t : Token) (e : BpmnFlowElement)
    (lc : MultiInstanceLoopCharacteristics) (item : Value) :
    ∃ label : Label, label.InLoop t lc ∧
      Acts [label] ctx (spawnMultiInstanceChild ctx t e lc item) := by
  unfold spawnMultiInstanceChild
  have hopen : ∀ vars, Acts [.opens t.scopeId vars] ctx _ := fun vars => .single (.open _ vars)
  refine ⟨_, ?_, ((hopen _).silent (.create ..)).silent (.enqueue _)⟩
  refine ⟨rfl, fun v hv => ?_⟩
  cases hname : truthy lc.inputElement with
  | none =>
    rw [hname] at hv
    exact absurd hv List.not_mem_nil
  | some name =>
    rw [hname] at hv
    rw [fst_of_mem_single hv]

theorem foldl_spawnMultiInstanceChild_acts (t : Token) (e : BpmnFlowElement)
    (lc : MultiInstanceLoopCharacteristics) (items : List Value) (ctx : ExecutionContext) :
    ∃ labels, (∀ x ∈ labels, x.InLoop t lc) ∧ Acts labels ctx
      (items.foldl (fun ctx item => spawnMultiInstanceChild ctx t e lc item) ctx) := by
  induction items generalizing ctx with
  | nil => exact ⟨[], List.forall_mem_nil _, .refl ctx⟩
  | cons item items ih =>
    obtain ⟨label, hlabel, hone⟩ := spawnMultiInstanceChild_acts ctx t e lc item
    obtain ⟨labels, hlabels, hrest⟩ := ih (spawnMultiInstanceChild ctx t e lc item)
    exact ⟨[label] ++ labels, List.forall_mem_cons.2 ⟨hlabel, hlabels⟩, hone.trans hrest⟩

theorem handleMultiInstanceStart_acts {t : Token} {e : BpmnFlowElement}
    {lc : MultiInstanceLoopCharacteristics}
    (h : handleMultiInstanceStart d ctx t e lc = .ok ctx') :
    ∃ labels, (∀ x ∈ labels, x.InLoop t lc) ∧ Acts labels ctx ctx' := by
  unfold handleMultiInstanceStart at h
  obtain ⟨scope, -, h⟩ := Except.bind_eq_ok_iff.1 h
  obtain ⟨collection, -, h⟩ := Except.bind_eq_ok_iff.1 h
  simp only at h
  split at h
  · obtain ⟨inst, -, h⟩ := Except.bind_eq_ok_iff.1 h
    exact ⟨[], List.forall_mem_nil _,
      ((setStatus_acts ctx t .completed).silent (.say _ rfl)).after (advanceToken_acts h)⟩
  · rename_i item items
    obtain ⟨inst, -, h⟩ := Except.bind_eq_ok_iff.1 h
    have hwait : Acts [] ctx _ := (Acts.one .now).silent (.update { t with
      status := .waiting, waitingFor := some { type := .external }, updatedAt := ctx.now.1 })
    split at h
    · have hloop := (hwait.silent (.update { t with
        status := .waiting, waitingFor := some { type := .external }, updatedAt := ctx.now.1,
        loopState := some { collection := item :: items, index := 0, iterationsRan := 0 } })).silent
          (.say (.multiInstanceStarted inst.id t.id e.id (items.length + 1) lc.isSequential) rfl)
      obtain ⟨label, hlabel, hone⟩ := spawnMultiInstanceChild_acts _ t e lc item
      exact ⟨[label], List.forall_mem_singleton.2 hlabel, Except.ok.inj h ▸ hloop.after hone⟩
    · obtain ⟨mid, hmid, h⟩ := Except.bind_eq_ok_iff.1 h
      have hsay := hwait.silent (.say (.multiInstanceStarted inst.id t.id e.id (items.length + 1)
        lc.isSequential) rfl)
      obtain ⟨labels, hlabels, hinit⟩ := initOutputCollection_acts hmid
      obtain ⟨more, hmore, hspawn⟩ := foldl_spawnMultiInstanceChild_acts t e lc (item :: items) mid
      refine ⟨labels ++ more, List.forall_mem_append.2 ⟨hlabels, hmore⟩, ?_⟩
      exact Except.ok.inj h ▸ (hsay.after hinit).trans hspawn
  · cases h

theorem completeMultiInstance_acts {t : Token} {e : BpmnFlowElement} {n : Nat}
    (h : completeMultiInstance d ctx t e n = .ok ctx') : Acts [] ctx ctx' := by
  unfold completeMultiInstance at h
  obtain ⟨inst, -, h⟩ := Except.bind_eq_ok_iff.1 h
  have hsay := (setStatus_acts ctx t .completed).silent
    (.say (.multiInstanceCompleted inst.id t.id e.id n) rfl)
  exact (hsay.after (cancelTokens_acts _ _)).after (moveTokenToFlows_acts h)

theorem handleMultiInstanceChildCompletion_acts {c : Token} {e : BpmnFlowElement}
    {lc : MultiInstanceLoopCharacteristics}
    (h : handleMultiInstanceChildCompletion d ctx c e lc = .ok ctx') :
    (c.parentTokenId.bind ctx.tokenMap.get? = none ∧ ctx' = ctx) ∨
      ∃ p labels, c.parentTokenId.bind ctx.tokenMap.get? = some p ∧
        (∀ x ∈ labels, x.InLoop p lc) ∧ Acts labels ctx ctx' := by
  unfold handleMultiInstanceChildCompletion at h
  split at h
  · rename_i hnone
    exact .inl ⟨hnone, (Except.ok.inj h).symm⟩
  · rename_i p hp
    obtain ⟨mid, hmid, h⟩ := Except.bind_eq_ok_iff.1 h
    obtain ⟨labels, hlabels, hcollect⟩ := collectOutput_acts hmid
    have hset := (setStatus_acts ctx c .completed).after hcollect
    refine .inr ⟨p, ?_⟩
    split at h
    · unfold handleSequentialChildCompletion at h
      split at h
      · exact ⟨labels, hp, hlabels, Except.ok.inj h ▸ hset⟩
      · obtain ⟨holds, -, h⟩ := Except.bind_eq_ok_iff.1 h
        split at h
        · exact ⟨labels, hp, hlabels, hset.before (completeMultiInstance_acts h)⟩
        · split at h
          · exact ⟨labels, hp, hlabels, hset.before (completeMultiInstance_acts h)⟩
          · rename_i item _
            obtain ⟨label, hlabel, hone⟩ := spawnMultiInstanceChild_acts _ p e lc item
            refine ⟨labels ++ [label], hp,
              List.forall_mem_append.2 ⟨hlabels, List.forall_mem_singleton.2 hlabel⟩, ?_⟩
            exact Except.ok.inj h ▸ (hset.silent (.update _)).trans hone
    · unfold handleParallelChildCompletion at h
      obtain ⟨holds, -, h⟩ := Except.bind_eq_ok_iff.1 h
      simp only at h
      split at h
      · exact ⟨labels, hp, hlabels,
          (hset.before (cancelTokens_acts mid _)).before (completeMultiInstance_acts h)⟩
      · split at h
        · exact ⟨labels, hp, hlabels, hset.before (completeMultiInstance_acts h)⟩
        · exact ⟨labels, hp, hlabels, Except.ok.inj h ▸ hset⟩

/-! ## A turn -/

/-- The labels of a turn. -/
inductive TurnActs (d : ProcessDefinition) (ctx : ExecutionContext) (t : Token) :
    List Label → Prop
  | silent : TurnActs d ctx t []
  | waits {e : BpmnFlowElement} (he : d.getElement t.elementId = .ok e) {condition : WaitCondition}
      (hc : t.conditionAt e = some condition) (hwraps : ¬ t.Wraps e) :
      TurnActs d ctx t [.waits t condition]
  | completes {e : EventElement} (he : d.getElement t.elementId = .ok (.endEvent e)) :
      TurnActs d ctx t [.completes]
  | subProcess {e : BpmnFlowElement} (he : d.getElement t.elementId = .ok e)
      (hsub : e.isSubProcess = true) :
      TurnActs d ctx t [.opens t.scopeId ∅, .waits t { type := .external }]
  | inner {e : EventElement} (he : d.getElement t.elementId = .ok (.endEvent e)) {s : String}
      (htag : truthy t.subProcessInstanceId = some s) {labels : List Label}
      (h : Propagates (ctx.setStatus t .completed) s labels) : TurnActs d ctx t labels
  | loop {e : BpmnFlowElement} (he : d.getElement t.elementId = .ok e)
      {lc : MultiInstanceLoopCharacteristics} (hlc : e.loopCharacteristics = some lc) {p : Token}
      (hp : p = t ∨ t.parentTokenId.bind ctx.tokenMap.get? = some p) {labels : List Label}
      (h : ∀ x ∈ labels, x.InLoop p lc) : TurnActs d ctx t labels

theorem handleTask_acts {t : Token} {e : BpmnFlowElement}
    {otherwise : Except EngineError ExecutionContext} (he : d.getElement t.elementId = .ok e)
    (hother : ¬ t.Wraps e → otherwise = .ok ctx' →
      ∃ labels, TurnActs d ctx t labels ∧ Acts labels ctx ctx')
    (h : handleTask d ctx t e otherwise = .ok ctx') :
    ∃ labels, TurnActs d ctx t labels ∧ Acts labels ctx ctx' := by
  unfold handleTask at h
  split at h
  · rename_i lc hlc _
    obtain ⟨labels, hlabels, hacts⟩ := handleMultiInstanceStart_acts h
    exact ⟨labels, .loop he hlc (.inl rfl) hlabels, hacts⟩
  · rename_i hnot
    refine hother (fun hw => ?_) h
    obtain ⟨lc, hlc⟩ := Option.isSome_iff_exists.1 hw.1
    exact hnot lc hlc hw.2

theorem processToken_acts {t : Token} (h : processToken d ctx t = .ok ctx') :
    ∃ labels, TurnActs d ctx t labels ∧ Acts labels ctx ctx' := by
  have hsilent : Acts [] ctx ctx' → ∃ labels, TurnActs d ctx t labels ∧ Acts labels ctx ctx' :=
    fun hacts => ⟨[], .silent, hacts⟩
  unfold processToken at h
  obtain ⟨element, he, h⟩ := Except.bind_eq_ok_iff.1 h
  cases element with
  | startEvent e => exact hsilent (advanceToken_acts h)
  | endEvent e =>
    rcases handleEndEvent_acts h with hacts | hacts | ⟨s, labels, htag, hlabels, hacts⟩
    · exact hsilent hacts
    · exact ⟨_, .completes he, hacts⟩
    · exact ⟨labels, .inner he htag hlabels, hacts⟩
  | intermediateCatchEvent e =>
    obtain ⟨condition, hcondition, hacts⟩ := handleIntermediateCatchEvent_acts h
    exact ⟨_, .waits he hcondition (fun hw => by cases hw.1), hacts⟩
  | intermediateThrowEvent e =>
    rcases handleIntermediateThrowEvent_acts h with hacts | ⟨hcomp, hacts⟩
    · exact hsilent hacts
    · exact ⟨_, .waits he (if_pos hcomp) (fun hw => by cases hw.1), hacts⟩
  | boundaryEvent b =>
    obtain ⟨condition, hcondition, hacts⟩ := handleBoundaryEventWait_acts h
    exact ⟨_, .waits he hcondition (fun hw => by cases hw.1), hacts⟩
  | serviceTask e =>
    refine handleTask_acts he (fun hnot h => ?_) h
    obtain ⟨inst, -, h⟩ := Except.bind_eq_ok_iff.1 h
    have hsay : Acts [] ctx (ctx.emit (.serviceTaskStarted inst.id t.id e.id
        (e.taskType.getD "unknown"))) := .one (.say _ rfl)
    refine ⟨_, .waits he rfl hnot, Except.ok.inj h ▸ ?_⟩
    exact (hsay.loud (.wait t { type := .external })).before (spawnBoundaryTokens_acts d _ t e.id)
  | userTask e =>
    refine handleTask_acts he (fun hnot h => ?_) h
    have hc : t.conditionAt (.userTask e) = some { type := .userTask } := by
      simp [Token.conditionAt, hnot]
    refine ⟨_, .waits he hc hnot, Except.ok.inj h ▸ ?_⟩
    exact (Acts.single (.wait t { type := .userTask })).before (spawnBoundaryTokens_acts d _ t e.id)
  | scriptTask e =>
    refine handleTask_acts he (fun hnot h => ?_) h
    exact ⟨_, .waits he rfl hnot, Except.ok.inj h ▸ .single (.wait t { type := .external })⟩
  | manualTask e =>
    refine handleTask_acts he (fun hnot h => ?_) h
    split at h
    · rename_i lc _ hlc
      rcases handleMultiInstanceChildCompletion_acts h with ⟨-, rfl⟩ | ⟨p, labels, hp, hl, hacts⟩
      · exact hsilent (.refl ctx')
      · exact ⟨labels, .loop he hlc (.inr hp) hl, hacts⟩
    · exact hsilent (advanceToken_acts h)
  | callActivity e => cases h
  | gateway g =>
    simp only at h
    split at h
    · exact hsilent (handleExclusiveGateway_acts h)
    · exact hsilent (handleParallelGateway_acts h)
    · exact hsilent (handleInclusiveGateway_acts h)
    · exact hsilent (handleEventBasedGateway_acts h)
  | subProcess e isTransaction elements flows startEventId =>
    exact ⟨_, .subProcess he rfl, handleSubProcess_acts h⟩

/-! ## Commands -/

theorem requireWaiting_spec {action : Nat → String} {id : Nat} {instanceId : Option Nat} {t : Token}
    (h : requireWaiting ctx action id instanceId = .ok t) :
    ctx.tokenMap.get? id = some t ∧ t.status = .waiting := by
  refine ⟨requireWaiting_eq h, ?_⟩
  unfold requireWaiting at h
  obtain ⟨token, -, h⟩ := Except.bind_eq_ok_iff.1 h
  split at h
  · cases h
  · rename_i hwaiting
    rw [← Except.ok.inj h]
    exact not_not.1 hwaiting

theorem recordCompensationIfNeeded_acts {t : Token} {e : BpmnFlowElement}
    (h : recordCompensationIfNeeded d ctx t e = .ok ctx') : Acts [] ctx ctx' := by
  unfold recordCompensationIfNeeded at h
  split at h
  · exact Except.ok.inj h ▸ .refl ctx
  · split at h
    · exact Except.ok.inj h ▸ .refl ctx
    · obtain ⟨inst, -, h⟩ := Except.bind_eq_ok_iff.1 h
      rw [← Except.ok.inj h]
      exact (Acts.one .now).silent (.records _)

theorem handleCompensationHandlerCompletion_acts {t throwToken : Token}
    (h : handleCompensationHandlerCompletion d ctx t throwToken = .ok ctx') : Acts [] ctx ctx' := by
  unfold handleCompensationHandlerCompletion at h
  have hset := setStatus_acts ctx t .completed
  simp only at h
  split at h
  · obtain ⟨inst, -, h⟩ := Except.bind_eq_ok_iff.1 h
    obtain ⟨element, -, h⟩ := Except.bind_eq_ok_iff.1 h
    have hsay := hset.silent (.say (.compensationCompleted inst.id throwToken.id
      throwToken.elementId) rfl)
    split at h
    · split at h
      · exact hsay.after (fireCancelBoundary_acts h)
      · exact Except.ok.inj h ▸ hsay
    · exact hsay.after (advanceToken_acts h)
  · exact Except.ok.inj h ▸ hset

/-- A label of the completion of a task: the output of its token, or what its multi-instance
activity does. -/
def Label.OfTask (ctx : ExecutionContext) (w : Token) (vars : Option Variables) (label : Label) :
    Prop :=
  (∃ values, vars = some values ∧ label = .merges w.scopeId values) ∨
    ∃ p lc, w.parentTokenId.bind ctx.tokenMap.get? = some p ∧ label.InLoop p lc

theorem autoResume_tokenMap (h : autoResume ctx = .ok ctx') : ctx'.tokenMap = ctx.tokenMap := by
  unfold autoResume at h
  obtain ⟨inst, -, h⟩ := Except.bind_eq_ok_iff.1 h
  split at h
  · rw [← Except.ok.inj h]
    rfl
  · rw [← Except.ok.inj h]

theorem autoResume_options (h : autoResume ctx = .ok ctx') : ctx'.options = ctx.options := by
  unfold autoResume at h
  obtain ⟨inst, -, h⟩ := Except.bind_eq_ok_iff.1 h
  split at h
  · rw [← Except.ok.inj h]
    rfl
  · rw [← Except.ok.inj h]

theorem mergeVariables_tokenMap {scopeId : Nat} {vars : Variables}
    (h : ctx.mergeVariables scopeId vars = .ok ctx') : ctx'.tokenMap = ctx.tokenMap := by
  unfold mergeVariables at h
  split at h
  · cases h
  · rw [← Except.ok.inj h]
    rfl

theorem mergeOutput_tokenMap {scopeId : Nat} {vars : Option Variables}
    (h : ctx.mergeOutput scopeId vars = .ok ctx') : ctx'.tokenMap = ctx.tokenMap := by
  unfold mergeOutput at h
  split at h
  · split at h
    · rw [← Except.ok.inj h]
    · exact mergeVariables_tokenMap h
  · rw [← Except.ok.inj h]

theorem mergeOutput_options {scopeId : Nat} {vars : Option Variables}
    (h : ctx.mergeOutput scopeId vars = .ok ctx') : ctx'.options = ctx.options := by
  rcases mergeOutput_acts h with ⟨hacts, -⟩ | ⟨_, -, hacts⟩
  · exact hacts.options
  · exact hacts.options

theorem emitChildCompleted_acts {t : Token} {e : BpmnFlowElement}
    (h : emitChildCompleted ctx t e = .ok ctx') :
    Acts [] ctx ctx' ∧ ctx'.tokenMap = ctx.tokenMap := by
  unfold emitChildCompleted at h
  split at h
  · obtain ⟨inst, -, h⟩ := Except.bind_eq_ok_iff.1 h
    rw [← Except.ok.inj h]
    exact ⟨.one (.say _ rfl), rfl⟩
  · rw [← Except.ok.inj h]
    exact ⟨.refl ctx, rfl⟩

theorem handleCompleteTask_acts {id : Nat} {vars : Option Variables}
    (h : handleCompleteTask d ctx id vars = .ok ctx') :
    ∃ w resumed labels, ctx.tokenMap.get? id = some w ∧ w.status = .waiting ∧
      autoResume ctx = .ok resumed ∧ (∀ x ∈ labels, x.OfTask ctx w vars) ∧
      Acts labels resumed ctx' := by
  unfold handleCompleteTask at h
  obtain ⟨w, hw, h⟩ := Except.bind_eq_ok_iff.1 h
  obtain ⟨resumed, hresumed, h⟩ := Except.bind_eq_ok_iff.1 h
  obtain ⟨merged, hmerged, h⟩ := Except.bind_eq_ok_iff.1 h
  obtain ⟨element, -, h⟩ := Except.bind_eq_ok_iff.1 h
  obtain ⟨hget, hwaiting⟩ := requireWaiting_spec hw
  have hmap : merged.tokenMap = ctx.tokenMap :=
    (mergeOutput_tokenMap hmerged).trans (autoResume_tokenMap hresumed)
  obtain ⟨labels, hlabels, hmerge⟩ : ∃ labels, (∀ x ∈ labels, x.OfTask ctx w vars) ∧
      Acts labels resumed merged := by
    rcases mergeOutput_acts hmerged with ⟨hacts, -⟩ | ⟨values, hvalues, hacts⟩
    · exact ⟨[], List.forall_mem_nil _, hacts⟩
    · exact ⟨_, List.forall_mem_singleton.2 (.inl ⟨values, hvalues, rfl⟩), hacts⟩
  refine ⟨w, resumed, ?_⟩
  split at h
  · rename_i lc _
    obtain ⟨mid, hmid, h⟩ := Except.bind_eq_ok_iff.1 h
    obtain ⟨hsay, hsame⟩ := emitChildCompleted_acts hmid
    rcases handleMultiInstanceChildCompletion_acts h with ⟨-, rfl⟩ | ⟨p, more, hp, hmore, hacts⟩
    · exact ⟨labels, hget, hwaiting, hresumed, hlabels, hmerge.before hsay⟩
    · rw [hsame, hmap] at hp
      refine ⟨labels ++ more, hget, hwaiting, hresumed, List.forall_mem_append.2
        ⟨hlabels, fun x hx => .inr ⟨p, lc, hp, hmore x hx⟩⟩, (hmerge.before hsay).trans hacts⟩
  · exact ⟨labels, hget, hwaiting, hresumed, hlabels,
      hmerge.before (handleCompensationHandlerCompletion_acts h)⟩
  · obtain ⟨inst, -, h⟩ := Except.bind_eq_ok_iff.1 h
    obtain ⟨recorded, hrecorded, h⟩ := Except.bind_eq_ok_iff.1 h
    have hclear : Acts [] merged (cancelBoundaryTokensFor
        (merged.emit (.serviceTaskCompleted inst.id id w.elementId 0)) w.elementId) :=
      (Acts.one (.say _ rfl)).after (cancelTokens_acts _ _)
    exact ⟨labels, hget, hwaiting, hresumed, hlabels, (hmerge.before
      (hclear.after (recordCompensationIfNeeded_acts hrecorded))).before (advanceToken_acts h)⟩

/-- A timer fires for the waiting token of the given id: at a boundary event nobody resumes the
instance, and otherwise the token's task is completed. -/
theorem handleFireTimer_cases {id : Nat} (h : handleFireTimer d ctx id = .ok ctx') :
    ∃ t, ctx.tokenMap.get? id = some t ∧ t.status = .waiting ∧
      (t.elementType = .boundaryEvent ∧ Acts [] ctx ctx' ∨
        t.elementType ≠ .boundaryEvent ∧
          handleCompleteTask d (cancelEbgSiblings ctx t) id none = .ok ctx') := by
  unfold handleFireTimer at h
  obtain ⟨t, ht, h⟩ := Except.bind_eq_ok_iff.1 h
  obtain ⟨hget, hwaiting⟩ := requireWaiting_spec ht
  refine ⟨t, hget, hwaiting, ?_⟩
  split at h
  · rename_i htype
    obtain ⟨element, -, h⟩ := Except.bind_eq_ok_iff.1 h
    have hset := setStatus_acts ctx t .completed
    refine .inl ⟨htype, ?_⟩
    simp only at h
    split at h
    · split at h
      · exact (hset.after (cancelTokens_acts _ _)).after (moveTokenToFlows_acts h)
      · exact hset.after (moveTokenToFlows_acts h)
    · exact hset.after (moveTokenToFlows_acts h)
  · rename_i htype
    exact .inr ⟨htype, h⟩

/-- The acts for one target of a message or a signal. -/
theorem resumeTarget_acts {vars : Option Variables} {t : Token}
    (h : resumeTarget d vars ctx t = .ok ctx') :
    ∃ labels, (∀ x ∈ labels, ∃ values, vars = some values ∧ x = .merges t.scopeId values) ∧
      Acts labels ctx ctx' := by
  unfold resumeTarget at h
  obtain ⟨current, -, h⟩ := Except.bind_eq_ok_iff.1 h
  split at h
  · exact ⟨[], List.forall_mem_nil _, Except.ok.inj h ▸ .refl ctx⟩
  · obtain ⟨merged, hmerged, h⟩ := Except.bind_eq_ok_iff.1 h
    have hrest : Acts [] merged ctx' := ((setStatus_acts merged t .completed).after
      (cancelEbgSiblings_acts _ t)).after (advanceTokenFlows_acts h)
    rcases mergeOutput_acts hmerged with ⟨hacts, -⟩ | ⟨values, hvalues, hacts⟩
    · exact ⟨[], List.forall_mem_nil _, hacts.before hrest⟩
    · exact ⟨_, List.forall_mem_singleton.2 ⟨values, hvalues, rfl⟩, hacts.before hrest⟩

theorem resumeTargets_acts {isTarget : Token → Bool} {vars : Option Variables}
    (h : resumeTargets d ctx isTarget vars = .ok ctx') :
    ∃ labels, (∀ x ∈ labels, ∃ t ∈ ctx.tokenMap.values, (t.status = .waiting ∧ isTarget t = true) ∧
      ∃ values, vars = some values ∧ x = .merges t.scopeId values) ∧ Acts labels ctx ctx' := by
  unfold resumeTargets at h
  have hloop : ∀ (targets : List Token) (c : ExecutionContext),
      (∀ t ∈ targets, t ∈ ctx.tokenMap.values ∧ t.status = .waiting ∧ isTarget t = true) →
      targets.foldlM (resumeTarget d vars) c = .ok ctx' →
      ∃ labels, (∀ x ∈ labels, ∃ t ∈ ctx.tokenMap.values,
        (t.status = .waiting ∧ isTarget t = true) ∧
        ∃ values, vars = some values ∧ x = .merges t.scopeId values) ∧ Acts labels c ctx' := by
    intro targets
    induction targets with
    | nil =>
      intro c _ h
      rw [List.foldlM_nil, Except.pure_eq_ok_iff] at h
      exact ⟨[], List.forall_mem_nil _, h ▸ .refl c⟩
    | cons t targets ih =>
      intro c htargets h
      obtain ⟨mid, hmid, h⟩ := Except.foldlM_cons_eq_ok_iff.1 h
      obtain ⟨labels, hlabels, hone⟩ := resumeTarget_acts hmid
      obtain ⟨more, hmore, hrest⟩ := ih mid (fun x hx => htargets x (List.mem_cons_of_mem t hx)) h
      obtain ⟨hmem, htarget⟩ := htargets t List.mem_cons_self
      exact ⟨labels ++ more, List.forall_mem_append.2
        ⟨fun x hx => ⟨t, hmem, htarget, hlabels x hx⟩, hmore⟩, hone.trans hrest⟩
  refine hloop _ ctx (fun t ht => ?_) h
  simpa [getAllTokens] using List.mem_filter.1 ht

theorem Label.OfTask.ne_completes {ctx : ExecutionContext} {w : Token} {vars : Option Variables}
    (h : Label.completes.OfTask ctx w vars) : False := by
  rcases h with ⟨_, _, h⟩ | ⟨_, _, _, h⟩
  · cases h
  · exact h

/-! ## The token of a command -/

/-- The token that a command finds under the id. -/
def EngineState.token? (state : EngineState) (id : Nat) : Option Token :=
  (KeyedMap.ofList state.tokens : KeyedMap Token.id).get? id

/-- The token that an accepted command is about waits. -/
theorem waiting_of_execute {fuel : Nat} {command : EngineCommand} {state : EngineState}
    {options : ExecuteOptions} {result : EngineResult} {id : Nat}
    (h : execute d fuel command (some state) options = .ok result)
    (hcommand : (∃ vars, command = .completeServiceTask id vars) ∨
      (∃ completedBy vars, command = .completeUserTask id completedBy vars) ∨
      (∃ code message, command = .failServiceTask id code message) ∨ command = .fireTimer id) :
    ∃ t, state.token? id = some t ∧ t.status = .waiting := by
  obtain ⟨mid, hmid, -⟩ := Except.bind_eq_ok_iff.1 h
  rcases hcommand with ⟨vars, rfl⟩ | ⟨completedBy, vars, rfl⟩ | ⟨code, message, rfl⟩ | rfl
  · obtain ⟨t, -, -, hget, hwaiting, -⟩ := handleCompleteTask_acts hmid
    exact ⟨t, hget, hwaiting⟩
  · obtain ⟨t, -, -, hget, hwaiting, -⟩ := handleCompleteTask_acts hmid
    exact ⟨t, hget, hwaiting⟩
  · have hmid : handleFailServiceTask d _ id code message = .ok mid := hmid
    unfold handleFailServiceTask at hmid
    obtain ⟨t, ht, -⟩ := Except.bind_eq_ok_iff.1 hmid
    exact ⟨t, requireWaiting_spec ht⟩
  · obtain ⟨t, hget, hwaiting, -⟩ := handleFireTimer_cases hmid
    exact ⟨t, hget, hwaiting⟩

end NexusWorkflow
