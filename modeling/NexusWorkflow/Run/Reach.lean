import NexusWorkflow.Game.Birth
import NexusWorkflow.Run.Filing

/-!
# Where tokens can get

The elements that a token can get to, read off the definition: along flows, to boundary events, into
sub-processes and to compensation handlers.  A definition is sturdy if nothing is missing at any of
them.  In every run of a sturdy definition all tokens stand at elements that can be reached.
-/

namespace NexusWorkflow

namespace ProcessDefinition

variable (d : ProcessDefinition)

/-- The definition has an element of the id. -/
def Knows (id : String) : Prop := ∃ e, d.getElement id = .ok e

instance (id : String) : Decidable (d.Knows id) :=
  decidable_of_iff ((d.getElement id).toOption.isSome = true) <| by
    unfold Knows
    cases d.getElement id <;> simp [Except.toOption]

/-- The flow exists, and so does the element that it leads to. -/
def Leads (flowId : String) : Prop := ∃ flow, d.getFlow flowId = .ok flow ∧ d.Knows flow.targetRef

instance (flowId : String) : Decidable (d.Leads flowId) :=
  decidable_of_iff (∃ flow ∈ (d.getFlow flowId).toOption, d.Knows flow.targetRef) <| by
    unfold Leads
    cases d.getFlow flowId <;> simp [Except.toOption]

/-- A token can get to the element of the id. -/
inductive Reaches : String → Prop
  | start : Reaches d.startEventId
  | flow {id flowId : String} {e : BpmnFlowElement} {flow : SequenceFlow} (h : Reaches id)
      (he : d.getElement id = .ok e)
      (hflow : flowId ∈ e.outgoingFlows ++ (d.getOutgoingFlows e.id).map (·.id))
      (hget : d.getFlow flowId = .ok flow) : Reaches flow.targetRef
  /-- A branch of an event-based gateway. -/
  | branch {id : String} {g : GatewayElement} {flow : SequenceFlow} (h : Reaches id)
      (he : d.getElement id = .ok (.gateway g)) (hflow : flow ∈ d.getOutgoingFlows g.id) :
      Reaches flow.targetRef
  | boundary {id : String} {b : BoundaryEventElement} (h : Reaches id)
      (hb : b ∈ d.armedBoundaries id) : Reaches b.id
  /-- The boundary event catches an error of the activity, or fires. -/
  | caught {id activity flowId : String} {b : BoundaryEventElement} {flow : SequenceFlow}
      (h : Reaches id) (hid : id = activity ∨ id = b.id) (hb : b ∈ d.findBoundariesFor activity)
      (hflow : flowId ∈ b.outgoingFlows) (hget : d.getFlow flowId = .ok flow) :
      Reaches flow.targetRef
  | inner {id startEventId : String} {e : BpmnElement} {isTransaction : Bool}
      {elements : List BpmnFlowElement} {flows : List SequenceFlow} (h : Reaches id)
      (he : d.getElement id = .ok (.subProcess e isTransaction elements flows startEventId)) :
      Reaches startEventId
  | handler {id handlerId : String} (h : Reaches id)
      (hc : d.compensationHandler id = some handlerId) : Reaches handlerId

/-- A token at the gateway finds its way on. -/
def Routes (g : GatewayElement) : Prop :=
  match g.type with
  | .exclusive => d.getOutgoingFlows g.id ≠ [] ∧ ∀ flow ∈ d.getOutgoingFlows g.id, d.Leads flow.id
  | .parallel | .inclusive =>
      ((d.getIncomingFlows g.id).length < 2 → d.getOutgoingFlows g.id ≠ []) ∧
        ∀ flow ∈ d.getOutgoingFlows g.id, d.Leads flow.id
  | .eventBased => (validateEventBasedGateway g d).toOption.isSome = true ∧
      ∀ flow ∈ d.getOutgoingFlows g.id, d.Knows flow.targetRef

instance (g : GatewayElement) : Decidable (d.Routes g) := by
  unfold Routes
  split <;> infer_instance

/-- Every flow that the element lists leads somewhere. -/
def Continues (flows : List String) : Prop := ∀ flowId ∈ flows, d.Leads flowId

instance (flows : List String) : Decidable (d.Continues flows) :=
  inferInstanceAs (Decidable (∀ flowId ∈ flows, _))

/-- The engine knows what to do with a token at the element. -/
def Handles : BpmnFlowElement → Prop
  | .gateway g => d.Routes g
  | .callActivity _ => False
  | .intermediateCatchEvent e => e.eventDefinition.catchCondition.isSome = true
  | .boundaryEvent b => b.waitCondition.isSome = true
  | .subProcess _ _ _ _ startEventId => d.Knows startEventId
  | _ => True

instance (e : BpmnFlowElement) : Decidable (d.Handles e) := by
  unfold Handles
  split <;> infer_instance

/-- Nothing is missing at the element, nor at the boundary events that may take its token away. -/
@[mk_iff]
structure Serves (e : BpmnFlowElement) : Prop where
  handles : d.Handles e
  continues : d.Continues e.outgoingFlows
  catches : ∀ b ∈ d.findBoundariesFor e.id,
    b.eventDefinition.type = .error ∨ b.eventDefinition.type = .cancel → d.Continues b.outgoingFlows

instance (e : BpmnFlowElement) : Decidable (d.Serves e) := decidable_of_iff _ (serves_iff d e).symm

/-- The id is that of an element where nothing is missing. -/
def Stands (id : String) : Prop := ∃ e, d.getElement id = .ok e ∧ d.Serves e

/-- There is a start event, and nothing is missing at any element that a token can get to. -/
structure Sturdy : Prop where
  start : d.Knows d.startEventId
  serves : ∀ id e, d.Reaches id → d.getElement id = .ok e → d.Serves e

variable {d}

theorem Sturdy.stands (hd : d.Sturdy) {id : String} (h : d.Reaches id) (hid : d.Knows id) :
    d.Stands id := by
  obtain ⟨e, he⟩ := hid
  exact ⟨e, he, hd.serves id e h he⟩

/-- It is enough that nothing is missing anywhere. -/
theorem Sturdy.of_all (hstart : d.Knows d.startEventId) (h : ∀ e ∈ d.allElements, d.Serves e) :
    d.Sturdy :=
  ⟨hstart, fun _ _ _ he => h _ (mem_allElements he)⟩

end ProcessDefinition

variable {d : ProcessDefinition} {P Q P' : Pool} {hand : Option Token} {origins : List Origin}

/-! ## Elements of the tree are found -/

mutual

theorem BpmnFlowElement.findInside_of_mem {e r : BpmnFlowElement} (h : r ∈ e.elementsInside) :
    (e.findInside r.id).isSome = true := by
  cases e with
  | subProcess e t elements flows s => exact findElementInTree_of_mem (l := elements) h
  | _ => simp [BpmnFlowElement.elementsInside] at h

/-- The search finds an element of the id of any element of the tree. -/
theorem findElementInTree_of_mem {l : List BpmnFlowElement} {r : BpmnFlowElement}
    (h : r ∈ elementsInTree l) : (findElementInTree l r.id).isSome = true := by
  cases l with
  | nil => simp [elementsInTree] at h
  | cons e rest =>
    rw [elementsInTree, List.mem_cons, List.mem_append] at h
    rw [findElementInTree]
    split_ifs with hid
    · rfl
    · rw [Option.isSome_or]
      rcases h with rfl | h | h
      · exact absurd rfl hid
      · rw [BpmnFlowElement.findInside_of_mem h]
        rfl
      · rw [findElementInTree_of_mem h, Bool.or_true]

end

theorem ProcessDefinition.knows_of_mem {e : BpmnFlowElement} (h : e ∈ d.allElements) :
    d.Knows e.id := by
  obtain ⟨x, hx⟩ := Option.isSome_iff_exists.1 (findElementInTree_of_mem h)
  exact ⟨x, by rw [getElement, hx]⟩

/-! ## Which boundary events, which handlers -/

/-- What the reason of a new token does not say: which boundary events are armed, and that handlers
are started for records. -/
def Origin.Grounded (d : ProcessDefinition) (records : List CompensationRecord) : Origin → Prop
  | .boundary host b => b ∈ d.armedBoundaries host.elementId
  | .handler _ e _ => ∃ r ∈ records, r.handlerId = e.id
  | _ => True

def AllGrounded (d : ProcessDefinition) (records : List CompensationRecord)
    (origins : List Origin) : Prop := ∀ o ∈ origins, o.Grounded d records

variable {records : List CompensationRecord}

theorem AllGrounded.onFlows (src : Token) (flows : List String) :
    AllGrounded d records (onFlows src flows) := by
  intro o ho
  obtain ⟨_, -, rfl⟩ := List.mem_map.1 ho
  trivial

theorem AllGrounded.nil : AllGrounded d records [] := List.forall_mem_nil _

theorem AllGrounded.arms (host : Token) {elementId : String} (hid : elementId = host.elementId) :
    AllGrounded d records ((d.armedBoundaries elementId).map (.boundary host)) := by
  intro o ho
  obtain ⟨b, hb, rfl⟩ := List.mem_map.1 ho
  subst hid
  exact hb

theorem AllGrounded.handlersFor {find : String → Option BpmnFlowElement} {source : Token}
    {tag : Option String} {used : List CompensationRecord} (hused : ∀ r ∈ used, r ∈ records)
    (hfind : ∀ id e, find id = some e → e.id = id) :
    AllGrounded d records (NexusWorkflow.handlersFor find source tag used) := by
  intro o ho
  obtain ⟨r, hr, hsome⟩ := List.mem_filterMap.1 ho
  obtain ⟨e, he, rfl⟩ := Option.map_eq_some_iff.1 hsome
  exact ⟨r, hused r hr, (hfind _ e he).symm⟩

theorem mem_of_mem_consumed {r : CompensationRecord} {target : Option String}
    (h : r ∈ consumed records target) : r ∈ records := by
  cases target with
  | none => exact (List.mem_insertionSort _).1 h
  | some activity => exact List.mem_of_mem_filter ((List.mem_insertionSort _).1 h)

theorem Parks.grounded {t : Token} {e : BpmnFlowElement} {condition : WaitCondition}
    {loopState : Option LoopState} {records : List CompensationRecord}
    (he : d.getElement t.elementId = .ok e)
    (h : Parks d P t e condition loopState origins records) : AllGrounded d P.records origins := by
  have hid := ProcessDefinition.getElement_id he
  cases h with
  | serviceTask _ _ | userTask _ _ => exact .arms t hid
  | scriptTask _ _ | catchEvent _ _ | boundaryEvent _ _ => exact .nil
  | sequential _ _ _ _ _ =>
    intro o ho
    rw [List.mem_singleton.1 ho]
    trivial
  | parallel _ _ _ _ _ =>
    intro o ho
    rw [List.eq_of_mem_replicate ho]
    trivial
  | subProcess e isTransaction elements flows startEventId =>
    intro o ho
    rcases List.mem_append.1 ho with ho | ho
    · split_ifs at ho
      · exact AllGrounded.arms t hid o ho
      · cases ho
    · rw [List.mem_singleton.1 ho]
      trivial
  | throwEvent _ _ _ =>
    refine .handlersFor (fun r hr => mem_of_mem_consumed hr) fun id e hfind => ?_
    have hid := List.find?_some hfind
    simpa using hid

theorem TxCancel.grounded {s : String} {t : Token} (h : TxCancel d s t P Q origins) :
    AllGrounded d P.records origins := by
  cases h with
  | compensate _ =>
    refine .handlersFor (fun r hr => ?_) fun id e hfind => findElementInTree_id hfind
    have hr : r ∈ consumed P.records none := hr
    exact mem_of_mem_consumed hr
  | orphan _ _ => exact .nil
  | fire _ _ hfire =>
    cases hfire with
    | none _ | unarmed _ _ => exact .nil
    | fire _ _ => exact .onFlows _ _

theorem ChildDone.grounded {c : Token} {e : BpmnFlowElement} {lc : MultiInstanceLoopCharacteristics}
    (h : ChildDone c e lc P Q origins) : AllGrounded d records origins := by
  cases h with
  | orphan _ | noLoop _ _ _ | wait _ _ _ => exact .nil
  | lastItem _ _ _ | condition _ _ _ | allDone _ _ _ => exact .onFlows _ _
  | next _ _ _ _ =>
    intro o ho
    rw [List.mem_singleton.1 ho]
    trivial

theorem Turn.grounded {t : Token} (h : Turn d P t Q origins) : AllGrounded d P.records origins := by
  cases h with
  | pass _ _ _ => exact .onFlows _ _
  | park he hparks => exact hparks.grounded he
  | branch _ _ _ =>
    intro o ho
    obtain ⟨_, -, rfl⟩ := List.mem_map.1 ho
    trivial
  | ends _ hends =>
    cases hends with
    | cancelTop _ _ | terminate _ | last _ _ _ _ _ | more _ _ _ _ => exact .nil
    | cancel _ _ hcancel => exact hcancel.grounded
    | inner _ _ _ hend =>
      cases hend with
      | busy _ | orphan _ _ => exact .nil
      | complete _ _ _ => exact .onFlows _ _
  | child _ _ _ hdone => exact hdone.grounded

theorem Complete.grounded {w : Token} (h : Complete d P w Q origins) :
    AllGrounded d records origins := by
  cases h with
  | child _ _ hdone => exact hdone.grounded
  | handler _ _ hdone =>
    cases hdone with
    | wait _ | orphan _ _ _ _ _ => exact .nil
    | fire _ _ _ _ _ hfire =>
      cases hfire with
      | none _ | unarmed _ _ => exact .nil
      | fire _ _ => exact .onFlows _ _
    | advance _ _ _ => exact .onFlows _ _
  | plain _ _ _ => exact .onFlows _ _

theorem Deed.grounded {command : EngineCommand} (h : Deed d P command Q origins) :
    AllGrounded d records origins := by
  cases h with
  | startProcess _ _ _ =>
    intro o ho
    rw [List.mem_singleton.1 ho]
    trivial
  | completeServiceTask _ _ _ hdone | completeUserTask _ _ _ _ hdone | fireCatch _ _ _ hdone =>
    exact hdone.grounded
  | failCaught _ _ _ _ | fireInterrupting _ _ _ _ _ | fireBoundary _ _ _ _ _ => exact .onFlows _ _
  | failUncaught _ _ _ _ | suspendInstance _ | resumeInstance _ | cancelInstance => exact .nil

/-- A record that a command files names the handler of the activity. -/
theorem Complete.filed {w : Token} {r : CompensationRecord} (h : Complete d P w Q origins)
    (hr : r ∈ Q.records) :
    r ∈ P.records ∨ ∃ e, d.getElement w.elementId = .ok e ∧
      d.compensationHandler e.id = some r.handlerId := by
  cases h with
  | child _ _ hdone => exact .inl (hdone.records ▸ hr)
  | handler _ _ hdone => exact .inl (hdone.records ▸ hr)
  | plain he _ hrecords =>
    cases hrecords with
    | none _ => exact .inl hr
    | file hhandler _ _ =>
      rcases List.mem_append.1 hr with hr | hr
      · exact .inl hr
      · rw [List.mem_singleton.1 hr]
        exact .inr ⟨_, he, hhandler⟩

theorem Deed.filed {command : EngineCommand} {r : CompensationRecord}
    (h : Deed d P command Q origins) (hr : r ∈ Q.records) :
    r ∈ P.records ∨ ∃ w ∈ P.tokens, ∃ e, d.getElement w.elementId = .ok e ∧
      d.compensationHandler e.id = some r.handlerId := by
  cases h with
  | completeServiceTask _ hw _ hdone | completeUserTask _ _ hw _ hdone =>
    exact (hdone.filed hr).imp_right fun hfiled => ⟨_, hw, hfiled⟩
  | @fireCatch w hw _ _ _ _ hdone =>
    rw [← Pool.records_clearSiblings P w]
    exact (hdone.filed hr).imp_right fun hfiled => ⟨_, hw, hfiled⟩
  | _ => exact .inl hr

/-! ## All tokens stand where tokens can get -/

/-- The token stands at an element that can be reached, inside a sub-process that can. -/
def Token.Placed (d : ProcessDefinition) (t : Token) : Prop :=
  (d.Reaches t.elementId ∧ d.Knows t.elementId) ∧
    ∀ s, truthy t.subProcessInstanceId = some s → d.Reaches s ∧ d.Knows s

theorem Token.Placed.of_bare {x y : Token} (h : x.bare = y.bare) (hx : x.Placed d) :
    y.Placed d := by
  unfold Placed at hx ⊢
  rw [← Token.tag_of_bare h, ← Token.elementId_of_bare h]
  exact hx

/-- Nothing is missing where the token stands. -/
theorem Token.Placed.stands (hd : d.Sturdy) {t : Token} (h : t.Placed d) : d.Stands t.elementId :=
  hd.stands h.1.1 h.1.2

theorem Token.Placed.inside (hd : d.Sturdy) {t : Token} (h : t.Placed d) {s : String}
    (hs : truthy t.subProcessInstanceId = some s) : d.Stands s :=
  hd.stands (h.2 s hs).1 (h.2 s hs).2

/-- The tokens are placed, and the records name handlers of activities that can be reached. -/
structure Pool.Placed (d : ProcessDefinition) (P : Pool) : Prop where
  tokens : P.Always (Token.Placed d)
  records : ∀ r ∈ P.records, ∃ id, d.Reaches id ∧ d.compensationHandler id = some r.handlerId

theorem Pool.Placed.holds (h : P.Placed d) {x : Token} (hx : P.Holds x) : x.Placed d :=
  h.tokens.holds (fun _ _ => Token.Placed.of_bare) hx

/-- New tokens are placed if those that they come from are. -/
theorem Token.placed_of_born (hd : d.Sturdy) (hP : P.Placed d) {o : Origin} {x : Token}
    (hborn : Born d P hand o) (hground : o.Grounded d records)
    (hrecords : ∀ r ∈ records, ∃ id, d.Reaches id ∧ d.compensationHandler id = some r.handlerId)
    (hx : Made d o x) : x.Placed d := by
  have hplaced : ∀ {src : Token}, P.Holds src → src.Placed d := hP.holds
  have hnone : d.Reaches x.elementId → d.Knows x.elementId → x.subProcessInstanceId = none →
      x.Placed d := by
    intro hreach hknows htag
    refine ⟨⟨hreach, hknows⟩, fun s hs => ?_⟩
    rw [htag] at hs
    cases hs
  have hsame : ∀ {src : Token}, P.Holds src → d.Reaches x.elementId → d.Knows x.elementId →
      x.subProcessInstanceId = truthy src.subProcessInstanceId → x.Placed d := by
    intro src hsrc hreach hknows htag
    refine ⟨⟨hreach, hknows⟩, fun s hs => ?_⟩
    rw [htag, truthy_truthy] at hs
    exact (hplaced hsrc).2 s hs
  have hflow : ∀ {src : Token} {flowId : String}, P.Holds src → Made d (.flow src flowId) x →
      (∀ flow, d.getFlow flowId = .ok flow → d.Reaches flow.targetRef) → x.Placed d := by
    rintro src flowId hsrc ⟨flow, element, hget, htarget, hx⟩ hreach
    have hid : x.elementId = flow.targetRef := by
      rw [hx, ← ProcessDefinition.getElement_id htarget]
      rfl
    refine hsame hsrc ?_ ?_ (by rw [hx]; rfl)
    · exact hid ▸ hreach flow hget
    · exact hid ▸ ⟨_, htarget⟩
  cases hborn with
  | start =>
    obtain ⟨_, element, _, he, hx⟩ := hx
    have hid : x.elementId = d.startEventId := by
      rw [hx, ← ProcessDefinition.getElement_id he]
      rfl
    exact hnone (hid ▸ .start) (hid ▸ ⟨_, he⟩) (by rw [hx]; rfl)
  | leaves hsrc he h =>
    exact hflow hsrc hx fun flow hget => .flow (hplaced hsrc).1.1 he h hget
  | closes hp hc _ he _ h =>
    exact hflow hp hx fun flow hget =>
      .flow (hplaced hc).1.1 he (List.mem_append_left _ h) hget
  | caught hsrc hb h =>
    exact hflow hsrc hx fun flow hget => .caught (hplaced hsrc).1.1 (.inl rfl) hb h hget
  | fires hw hb hid h =>
    exact hflow hw hx fun flow hget => .caught (hplaced hw).1.1 (.inr hid) hb h hget
  | @arms host b hhost hb =>
    have hx : x = _ := hx
    have hid : x.elementId = b.id := by rw [hx]; rfl
    refine hsame hhost ?_ ?_ (by rw [hx]; rfl)
    · rw [hid]
      exact .boundary (hplaced hhost).1.1 hground
    · rw [hid]
      exact ProcessDefinition.knows_of_mem (ProcessDefinition.mem_findBoundariesFor hb).1
  | @enters outer e _ _ _ startEventId houter he =>
    obtain ⟨_, _, hx⟩ := hx
    have hid : x.elementId = startEventId := by rw [hx]; rfl
    have houterPlaced := (hplaced houter).1
    refine ⟨⟨?_, ?_⟩, fun s hs => ?_⟩
    · exact hid ▸ .inner houterPlaced.1 he
    · exact hid ▸ (hd.serves _ _ houterPlaced.1 he).handles
    · have htag : x.subProcessInstanceId = some outer.elementId := by rw [hx]; rfl
      rw [htag] at hs
      have hs : outer.elementId = s := Option.some.inj (Option.filter_eq_some_iff.1 hs).1
      exact hs ▸ houterPlaced
  | @item p e hp he _ =>
    obtain ⟨_, hx⟩ := hx
    have hid : x.elementId = p.elementId := by
      rw [hx, ← ProcessDefinition.getElement_id he]
      rfl
    exact hnone (hid ▸ (hplaced hp).1.1) (hid ▸ (hplaced hp).1.2) (by rw [hx]; rfl)
  | @next p c e _ hc _ he _ =>
    obtain ⟨_, hx⟩ := hx
    have hid : x.elementId = c.elementId := by
      rw [hx, ← ProcessDefinition.getElement_id he]
      rfl
    exact hnone (hid ▸ (hplaced hc).1.1) (hid ▸ (hplaced hc).1.2) (by rw [hx]; rfl)
  | @compensates source _ e tag hsource _ _ he htag =>
    obtain ⟨_, hx⟩ := hx
    obtain ⟨r, hr, hhandler⟩ := hground
    obtain ⟨activity, hreach, hc⟩ := hrecords r hr
    have hid : x.elementId = e.id := by rw [hx]; rfl
    have hreaches : d.Reaches x.elementId := by
      rw [hid, ← hhandler]
      exact .handler hreach hc
    have hknows : d.Knows x.elementId := hid ▸ ProcessDefinition.knows_of_mem he
    rcases htag with rfl | rfl
    · exact hnone hreaches hknows (by rw [hx]; rfl)
    · exact hsame hsource hreaches hknows (by rw [hx]; rfl)
  | @branch gate g flow _ hgate he _ _ hflow =>
    obtain ⟨element, htarget, hx⟩ := hx
    have hid : x.elementId = flow.targetRef := by
      rw [hx, ← ProcessDefinition.getElement_id htarget]
      rfl
    refine hnone ?_ (hid ▸ ⟨_, htarget⟩) (by rw [hx]; rfl)
    rw [hid]
    exact .branch (hplaced hgate).1.1 he hflow

namespace Pool.Placed

theorem frame (h : P.Placed d) (hf : Frame P Q)
    (hrecords : ∀ r ∈ Q.records, ∃ id, d.Reaches id ∧ d.compensationHandler id = some r.handlerId) :
    Q.Placed d :=
  ⟨h.tokens.frame (fun _ _ => Token.Placed.of_bare) hf, hrecords⟩

theorem spawned (hd : d.Sturdy) (h : Q.Placed d) (hborn : AllBorn d Q hand origins)
    (hground : AllGrounded d records origins)
    (hrecords : ∀ r ∈ records, ∃ id, d.Reaches id ∧ d.compensationHandler id = some r.handlerId)
    (hmade : Spawned (Made d) origins Q P') : P'.Placed d := by
  refine ⟨h.tokens.spawned (fun o ho x hx => ?_) hmade, ?_⟩
  · exact Token.placed_of_born hd h (hborn o ho) (hground o ho) hrecords hx
  · obtain ⟨news, n, -, -, rfl⟩ := hmade
    exact h.records

theorem turned {t : Token} (hd : d.Sturdy) (hP : P.Coherent [t]) (h : P.Placed d)
    (hturned : Turned d P t P') : P'.Placed d := by
  obtain ⟨Q, origins, hturn, hmade⟩ := hturned
  have ht := hP.holds List.mem_cons_self
  have hQ : Q.Placed d := h.frame (hturn.frame hP.nodup ht) fun r hr =>
    h.records r (hturn.records.subset hr)
  exact hQ.spawned hd (hturn.born hP.nodup ht) hturn.grounded h.records hmade

theorem resumes {targets : List Token} (hd : d.Sturdy) (hP : P.Coherent []) (h : P.Placed d)
    (hr : Resumes d targets P P') : P'.Placed d := by
  induction hr with
  | nil _ => exact h
  | skip _ _ _ ih => exact ih hP h
  | @resume w rest P P' hw hwaiting Q mid origins hresume hmade _ ih =>
    have hholds := Pool.holds_of_mem hw
    have hrecords : Q.records = P.records := by
      obtain ⟨-⟩ := hresume
      exact Pool.records_clearSiblings _ _
    have hQ : Q.Placed d := h.frame (hresume.frame hP.nodup hholds) (hrecords ▸ h.records)
    have hborn : AllBorn d Q none origins := hresume.born hP.nodup hholds
    refine ih ((hresume.ready hP hw hwaiting).spawned hmade)
      (hQ.spawned hd hborn ?_ h.records hmade)
    obtain ⟨-⟩ := hresume
    exact .onFlows _ _

theorem commanded {command : EngineCommand} (hd : d.Sturdy) (hP : P.Coherent []) (h : P.Placed d)
    (hc : Commanded d P command P') : P'.Placed d := by
  cases hc with
  | deed hdeed hmade =>
    have hQ := h.frame (hdeed.frame hP.nodup) fun r hr => by
      rcases hdeed.filed hr with hr | ⟨w, hw, e, he, hhandler⟩
      · exact h.records r hr
      · refine ⟨w.elementId, (h.tokens w hw).1.1, ?_⟩
        rw [← hhandler, ProcessDefinition.getElement_id he]
    have hborn : AllBorn d _ none _ := hdeed.born hP.nodup
    exact hQ.spawned hd hborn hdeed.grounded h.records hmade
  | deliverMessage _ _ hr | broadcastSignal _ _ hr => exact h.resumes hd hP hr

end Pool.Placed

theorem Trace.placed (hd : d.Sturdy) {steps : List Step} {ctx : ExecutionContext}
    (h : Trace d steps ctx) : ctx.pool.Placed d := by
  refine h.maintains (I := Pool.Placed d) (C := fun _ => True) (fun _ => ?_)
    (fun _ _ _ _ _ hI => ⟨hI.tokens, hI.records⟩) ?_ ?_ fun _ _ => trivial
  · exact ⟨fun _ hx => absurd hx List.not_mem_nil, fun _ hr => absurd hr List.not_mem_nil⟩
  · exact fun _ _ _ _ hcoh _ hI hcmd => hI.commanded hd hcoh hcmd
  · exact fun _ _ _ _ hcoh hI hturned => Pool.Placed.turned hd hcoh ⟨hI.tokens, hI.records⟩ hturned

end NexusWorkflow
