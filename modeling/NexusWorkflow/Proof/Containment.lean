import NexusWorkflow.Model.Levels
import NexusWorkflow.Run.Run

/-!
# Sub-process containment

A token inside a sub-process should carry the id of the innermost sub-process around its element, so
that the sub-process is completed only when no token inside is live.  Two places of the engine
forget the tag or take it from the wrong token: the children of a multi-instance activity carry
none, and a cancel end event starts the handlers of all compensation records with the tag of its own
transaction.  Where neither happens inside a sub-process, every token of a well-scoped definition is
contained.
-/

namespace NexusWorkflow

open ExecutionContext

variable {d : ProcessDefinition} {P Q P' : Pool} {origins : List Origin}

/-- The token carries the id of the innermost sub-process around its element. -/
def Token.InScope (d : ProcessDefinition) (t : Token) : Prop :=
  t.subProcessInstanceId = d.enclosing t.elementId

def Pool.Contained (d : ProcessDefinition) (P : Pool) : Prop := ∀ x ∈ P.tokens, x.InScope d

theorem Token.InScope.of_bare {t x : Token} (h : t.InScope d) (hb : x.bare = t.bare) :
    x.InScope d := by
  unfold Token.InScope at h ⊢
  rw [Token.tag_of_bare hb, Token.elementId_of_bare hb]
  exact h

namespace Pool.Contained

theorem holds (h : P.Contained d) {t : Token} (ht : P.Holds t) : t.InScope d := by
  obtain ⟨x, hx, hb⟩ := Pool.holds_iff.1 ht
  exact (h x hx).of_bare hb.symm

theorem frame (h : P.Contained d) (hf : Frame P Q) : Q.Contained d := by
  intro y hy
  obtain ⟨x, hx, hb⟩ := hf.exists_mem' hy
  exact (h x hx).of_bare hb.symm

end Pool.Contained

/-! ## New tokens in scope -/

/-- Whatever token is made for this origin is in scope. -/
def Origin.Scoped (d : ProcessDefinition) (o : Origin) : Prop := ∀ t, Made d o t → t.InScope d

theorem Pool.Contained.spawned (h : Q.Contained d) (horigins : ∀ o ∈ origins, o.Scoped d)
    (hmade : Spawned (Made d) origins Q P') : P'.Contained d := by
  obtain ⟨news, n, hR, -, rfl⟩ := hmade
  intro x hx
  rcases List.mem_append.1 hx with hx | hx
  · exact h x hx
  · obtain ⟨o, ho, hox⟩ := exists_of_forall₂_right hR hx
    exact horigins o ho x hox

theorem scoped_onFlows (hd : d.WellScoped) {src : Token} (hsrc : src.InScope d)
    {flows : List String}
    (hflows : ∀ flowId ∈ flows, d.LeadsTo flowId (d.enclosing src.elementId)) :
    ∀ o ∈ onFlows src flows, o.Scoped d := by
  intro o ho t ht
  obtain ⟨flowId, hf, rfl⟩ := List.mem_map.1 ho
  obtain ⟨flow, element, hflow, helement, ht⟩ := ht
  have hlevel := (hflows flowId hf).of_getFlow hflow
  have hid := ProcessDefinition.getElement_id helement
  have htag : t.subProcessInstanceId = truthy src.subProcessInstanceId := by rw [ht]; rfl
  have hplace : t.elementId = flow.targetRef := by rw [ht, ← hid]; rfl
  unfold Token.InScope at hsrc ⊢
  rw [htag, hsrc, hd.truthy_enclosing, hplace, hlevel]

/-- The flows on which a token leaves its element stay on its level. -/
theorem scoped_outgoing (hd : d.WellScoped) {src : Token} (hsrc : src.InScope d)
    {e : BpmnFlowElement} (he : d.getElement src.elementId = .ok e) {flows : List String}
    (hflows : ∀ f ∈ flows, f ∈ e.outgoingFlows ++ (d.getOutgoingFlows e.id).map (·.id)) :
    ∀ o ∈ onFlows src flows, o.Scoped d := by
  refine scoped_onFlows hd hsrc fun flowId hf => ?_
  rw [← ProcessDefinition.getElement_id he]
  exact hd.flows e (ProcessDefinition.mem_allElements he) flowId (hflows flowId hf)

theorem scoped_advance (hd : d.WellScoped) {src : Token} (hsrc : src.InScope d)
    {e : BpmnFlowElement} (he : d.getElement src.elementId = .ok e) :
    ∀ o ∈ onFlows src e.outgoingFlows, o.Scoped d :=
  scoped_outgoing hd hsrc he fun _ hf => List.mem_append_left _ hf

theorem scoped_boundary (hd : d.WellScoped) {host : Token} (hhost : host.InScope d)
    {b : BoundaryEventElement} (hb : b ∈ d.findBoundariesFor host.elementId) :
    (Origin.boundary host b).Scoped d := by
  intro t ht
  have htag : t.subProcessInstanceId = truthy host.subProcessInstanceId := by
    rw [show t = _ from ht]
    rfl
  have hplace : t.elementId = b.id := by
    rw [show t = _ from ht]
    rfl
  unfold Token.InScope at hhost ⊢
  rw [htag, hhost, hd.truthy_enclosing, hplace, (hd.boundary hb).1]

/-- The handlers of compensation records, if their elements are on the level of the tag. -/
theorem scoped_handlersFor {find : String → Option BpmnFlowElement} {source : Token}
    {tag : Option String} {records : List CompensationRecord}
    (h : ∀ r ∈ records, ∀ e, find r.handlerId = some e → d.enclosing e.id = tag) :
    ∀ o ∈ handlersFor find source tag records, o.Scoped d := by
  intro o ho t ht
  obtain ⟨r, hr, hfind⟩ := List.mem_filterMap.1 ho
  obtain ⟨e, he, rfl⟩ := Option.map_eq_some_iff.1 hfind
  obtain ⟨instanceId, ht⟩ := ht
  have hlevel := h r hr e he
  unfold Token.InScope
  rw [ht]
  exact hlevel.symm

theorem scoped_child {parent : Token} {e : BpmnFlowElement} (h : d.enclosing e.id = none) :
    (Origin.child parent e).Scoped d := by
  rintro t ⟨scopeId, ht⟩
  unfold Token.InScope
  rw [ht]
  exact h.symm

theorem scoped_nil : ∀ o ∈ ([] : List Origin), o.Scoped d := by simp

theorem Exits.mem_flows {joins joins' : KeyedMap GatewayJoinState.gatewayId} {t : Token}
    {e : BpmnFlowElement} {flows : List String} (h : Exits d joins t e flows joins') :
    ∀ f ∈ flows, f ∈ e.outgoingFlows ++ (d.getOutgoingFlows e.id).map (·.id) := by
  intro f hf
  cases h with
  | startEvent _ | throwEvent _ | manualTask _ _ | emptyLoop _ _ _ =>
    exact List.mem_append_left _ hf
  | exclusive g _ h =>
    rw [List.mem_singleton.1 hf]
    exact List.mem_append_right _ (List.mem_map.2 ⟨_, h, rfl⟩)
  | parallelSplit _ _ _ _ | parallelFires _ _ _ _ _ | inclusiveFires _ _ _ _ _ =>
    exact List.mem_append_right _ hf
  | parallelWaits _ _ _ _ _ | inclusiveWaits _ _ _ _ _ => cases hf
  | inclusiveSplit _ _ _ _ hsub _ | inclusiveSplitJoin _ _ _ _ hsub _ _ _ _ =>
    obtain ⟨flow, hflow, rfl⟩ := hsub f hf
    exact List.mem_append_right _ (List.mem_map.2 ⟨flow, hflow, rfl⟩)

/-! ## The rules -/

theorem SubEnd.scoped {s : String} (hd : d.WellScoped) (hP : P.Contained d)
    (h : SubEnd d s P Q origins) : ∀ o ∈ origins, o.Scoped d := by
  cases h with
  | busy _ => exact scoped_nil
  | orphan _ _ => exact scoped_nil
  | complete _ houter he =>
    obtain ⟨hm, hs, -⟩ := Pool.waitingAt_eq_some houter
    exact scoped_advance hd (hP _ hm) (hs.symm ▸ he)

theorem FireCancel.scoped {s : String} {outer : Token} (hd : d.WellScoped) (hP : P.Contained d)
    (h : FireCancel d s outer P Q origins) : ∀ o ∈ origins, o.Scoped d := by
  cases h with
  | none _ => exact scoped_nil
  | unarmed _ _ => exact scoped_nil
  | @fire b hb w hw =>
    obtain ⟨hm, hid, -⟩ := Pool.waitingAt_eq_some hw
    obtain ⟨hlevel, hflows⟩ := hd.boundary (List.mem_of_find?_eq_some hb)
    refine scoped_onFlows hd (hP _ hm) fun flowId hf => ?_
    rw [hid, hlevel]
    exact hflows flowId hf

/-- The handlers started by a cancel end event lie on the level of the event. -/
def Pool.HandlersInScope (d : ProcessDefinition) (P : Pool) (t : Token) : Prop :=
  ∀ s ∈ t.subProcessInstanceId, ∀ r ∈ P.records, ∀ e ∈ findElementInTree d.elements r.handlerId,
    d.enclosing e.id = some s

instance (P : Pool) (t : Token) : Decidable (P.HandlersInScope d t) := by
  unfold Pool.HandlersInScope
  infer_instance

theorem TxCancel.scoped {s : String} {t : Token} (hd : d.WellScoped) (hP : P.Contained d)
    (hrecords : ∀ r ∈ P.records, ∀ e ∈ findElementInTree d.elements r.handlerId,
      d.enclosing e.id = some s)
    (h : TxCancel d s t P Q origins) : ∀ o ∈ origins, o.Scoped d := by
  have hclear := hP.frame (Frame.clearScope P s t)
  cases h with
  | compensate _ =>
    refine scoped_handlersFor fun r hr e he => ?_
    have hmem : r ∈ P.records := (List.mem_insertionSort _).1 hr
    exact hrecords r hmem e he
  | orphan _ _ => exact scoped_nil
  | fire _ _ hfire => exact hfire.scoped hd hclear

theorem Ends.scoped {t : Token} {e : EventElement} (hd : d.WellScoped) (hP : P.Contained d)
    (hcancel : e.eventDefinition.type = .cancel → P.HandlersInScope d t)
    (h : Ends d t P e Q origins) : ∀ o ∈ origins, o.Scoped d := by
  cases h with
  | cancel he htag h =>
    refine h.scoped hd hP fun r hr x hx => ?_
    have hsome : t.subProcessInstanceId = some _ := (Option.filter_eq_some_iff.1 htag).1
    exact hcancel he _ hsome r hr x hx
  | inner _ _ _ h => exact h.scoped hd hP
  | cancelTop _ _ | terminate _ | last _ _ _ _ _ | more _ _ _ _ => exact scoped_nil

/-- A child completes on the top level, and so stands its parent. -/
theorem ChildDone.scoped {c : Token} {e : BpmnFlowElement} {lc : MultiInstanceLoopCharacteristics}
    (hd : d.WellScoped) (hP : P.Contained d) (hc : c.InScope d)
    (he : d.getElement c.elementId = .ok e) (htag : c.subProcessInstanceId = none)
    (hparent : ∀ p, c.parentTokenId.bind P.get? = some p → d.enclosing p.elementId = none)
    (h : ChildDone c e lc P Q origins) : ∀ o ∈ origins, o.Scoped d := by
  have hid := ProcessDefinition.getElement_id he
  have htop : d.enclosing e.id = none := by
    unfold Token.InScope at hc
    rw [hid, ← hc, htag]
  have hflows : ∀ p, c.parentTokenId.bind P.get? = some p →
      ∀ o ∈ onFlows p e.outgoingFlows, o.Scoped d := by
    intro p hp
    refine scoped_onFlows hd (hP.holds (Pool.holds_of_get? hp)) fun flowId hf => ?_
    rw [hparent p hp, ← htop]
    exact hd.flows e (ProcessDefinition.mem_allElements he) flowId (List.mem_append_left _ hf)
  cases h with
  | orphan _ | noLoop _ _ _ | wait _ _ _ => exact scoped_nil
  | next hp _ _ loopState =>
    intro o ho
    rw [List.mem_singleton.1 ho]
    exact scoped_child htop
  | lastItem hp _ _ => exact hflows _ hp
  | condition hp _ _ => exact hflows _ hp
  | allDone hp _ _ => exact hflows _ hp

theorem HandlerDone.scoped {h throwToken : Token} (hd : d.WellScoped) (hnd : P.ids.Nodup)
    (hP : P.Contained d) (hh : P.Holds h) (hth : P.Holds throwToken)
    (hdone : HandlerDone d h throwToken P Q origins) : ∀ o ∈ origins, o.Scoped d := by
  cases hdone with
  | wait _ | orphan _ _ _ _ _ => exact scoped_nil
  | fire _ _ _ _ _ hfire => exact hfire.scoped hd (hP.frame (Frame.finish hnd hh))
  | advance _ he _ => exact scoped_advance hd (hP.holds hth) he

/-- What the token must not do inside a sub-process: start or go on with a multi-instance activity,
or start the handlers of another level. -/
@[mk_iff]
structure Pool.KeepsLevel (d : ProcessDefinition) (P : Pool) (t : Token) (e : BpmnFlowElement) :
    Prop where
  loop : e.loopCharacteristics.isSome → t.parentTokenId = none ∨ e.type = .manualTask →
    t.subProcessInstanceId = none
  parent : e.loopCharacteristics.isSome → e.type = .manualTask →
    ∀ p ∈ t.parentTokenId.bind P.get?, d.enclosing p.elementId = none
  cancel : e.isCancelEnd → P.HandlersInScope d t

instance (P : Pool) (t : Token) (e : BpmnFlowElement) : Decidable (P.KeepsLevel d t e) :=
  decidable_of_iff _ (Pool.keepsLevel_iff d P t e).symm

theorem Parks.scoped {t : Token} {e : BpmnFlowElement} {condition : WaitCondition}
    {loopState : Option LoopState} {records : List CompensationRecord} (hd : d.WellScoped)
    (ht : t.InScope d) (he : d.getElement t.elementId = .ok e) (hlevel : P.KeepsLevel d t e)
    (h : Parks d P t e condition loopState origins records) : ∀ o ∈ origins, o.Scoped d := by
  have hid := ProcessDefinition.getElement_id he
  have hboundaries : ∀ o ∈ (d.armedBoundaries e.id).map (Origin.boundary t), o.Scoped d := by
    intro o ho
    obtain ⟨b, hb, rfl⟩ := List.mem_map.1 ho
    refine scoped_boundary hd ht ?_
    rw [← hid]
    exact (List.mem_filter.1 hb).1
  have hchild : t.subProcessInstanceId = none → ∀ o ∈ [Origin.child t e], o.Scoped d := by
    intro htag o ho
    rw [List.mem_singleton.1 ho]
    unfold Token.InScope at ht
    exact scoped_child (by rw [hid, ← ht, htag])
  cases h with
  | serviceTask _ _ | userTask _ _ => exact hboundaries
  | scriptTask _ _ | catchEvent _ _ | boundaryEvent _ _ => exact scoped_nil
  | sequential _ hlc hparent _ _ =>
    exact hchild (hlevel.loop (by simp [hlc]) (Or.inl hparent))
  | parallel _ hlc hparent _ n =>
    intro o ho
    rw [List.eq_of_mem_replicate ho]
    exact hchild (hlevel.loop (by simp [hlc]) (Or.inl hparent)) _ List.mem_cons_self
  | subProcess x isTransaction elements flows startEventId =>
    intro o ho
    rcases List.mem_append.1 ho with ho | ho
    · split_ifs at ho
      · exact hboundaries o ho
      · cases ho
    · rw [List.mem_singleton.1 ho]
      rintro y ⟨_, _, hy⟩
      have hinner := hd.inner _ (ProcessDefinition.mem_allElements he) startEventId rfl
      unfold Token.InScope
      rw [hy]
      show some t.elementId = d.enclosing startEventId
      rw [hinner, hid]
  | throwEvent _ _ _ =>
    refine scoped_handlersFor fun r _ x hx => ?_
    exact hd.top x (List.mem_of_find?_eq_some hx)

/-- A branch that passes the validation of an event-based gateway leads to a top-level element. -/
theorem enclosing_of_validateBranch (hd : d.WellScoped) {g : GatewayElement} {flowId : String}
    {level : Option String} (hleads : d.LeadsTo flowId level)
    (h : validateEventBasedBranch g d flowId = .ok ()) : level = none := by
  unfold validateEventBasedBranch at h
  cases hflow : d.sequenceFlows.find? (·.id = flowId) with
  | none => simp [hflow] at h
  | some flow =>
    rw [hflow] at h
    have hget : d.getFlow flowId = .ok flow := by
      simp only [ProcessDefinition.getFlow, findFlowInTree, searchTree, hflow, Option.some_or]
    rw [← hleads.of_getFlow hget]
    cases htarget : d.elements.find? (·.id = flow.targetRef) with
    | none => simp [htarget] at h
    | some e =>
      have hid : e.id = flow.targetRef := by simpa using List.find?_some htarget
      rw [← hid]
      exact hd.top e (List.mem_of_find?_eq_some htarget)

/-- An event-based gateway passes its validation on the top level only. -/
theorem enclosing_of_validate (hd : d.WellScoped) {g : GatewayElement}
    (hg : .gateway g ∈ d.allElements) (h : validateEventBasedGateway g d = .ok ()) :
    d.enclosing g.id = none := by
  unfold validateEventBasedGateway at h
  split_ifs at h with _ hempty
  cases hflows : g.outgoingFlows with
  | nil => simp [hflows] at hempty
  | cons flowId rest =>
    rw [hflows, List.forM_eq_forM, List.forM_cons] at h
    obtain ⟨_, hbranch, -⟩ := Except.bind_eq_ok_iff.1 h
    have hmem : flowId ∈ g.outgoingFlows := by simp [hflows]
    exact enclosing_of_validateBranch hd
      (hd.flows _ hg flowId (List.mem_append_left _ hmem)) hbranch

theorem Turn.scoped {t : Token} (hd : d.WellScoped) (hP : P.Contained d) (hnd : P.ids.Nodup)
    (ht : P.Holds t) (hlevel : ∀ e, d.getElement t.elementId = .ok e → P.KeepsLevel d t e)
    (h : Turn d P t Q origins) : ∀ o ∈ origins, o.Scoped d := by
  have hscope := hP.holds ht
  cases h with
  | pass he hexit _ => exact scoped_outgoing hd hscope he hexit.mem_flows
  | park he hpark => exact hpark.scoped hd hscope he (hlevel _ he)
  | @branch g he hg hvalid =>
    intro o ho x hx
    obtain ⟨flow, hflow, rfl⟩ := List.mem_map.1 ho
    obtain ⟨element, helement, hx⟩ := hx
    have hmem := ProcessDefinition.mem_allElements he
    have htop := enclosing_of_validate hd hmem hvalid
    have hbranch := hd.branches _ hmem flow hflow
    unfold Token.InScope
    rw [hx]
    show none = d.enclosing element.id
    rw [ProcessDefinition.getElement_id helement, hbranch]
    exact htop.symm
  | @ends e he _ _ hends =>
    refine hends.scoped hd (hP.frame (Frame.finish hnd ht)) fun hcancel => ?_
    exact (hlevel _ he).cancel (by simp [BpmnFlowElement.isCancelEnd, hcancel])
  | @child e he lc hlc hparent _ _ hdone =>
    have hkeeps := hlevel _ he
    refine hdone.scoped hd hP hscope he (hkeeps.loop ?_ (Or.inr rfl)) ?_
    · simp [BpmnFlowElement.loopCharacteristics, hlc]
    · exact hkeeps.parent (by simp [BpmnFlowElement.loopCharacteristics, hlc]) rfl

/-- The token does not complete as a child of a multi-instance activity inside a sub-process. -/
def Pool.CompletesOnTop (d : ProcessDefinition) (P : Pool) (w : Token) : Prop :=
  match d.getElement w.elementId with
  | .error _ => True
  | .ok e =>
      match P.role w e with
      | .child _ => w.subProcessInstanceId = none
      | _ => True

instance (P : Pool) (w : Token) : Decidable (P.CompletesOnTop d w) := by
  unfold Pool.CompletesOnTop
  rcases d.getElement w.elementId with _ | e
  · infer_instance
  · dsimp only
    rcases P.role w e with _ | _ | _ <;> infer_instance

/-- The parent of a child of a multi-instance activity stands at the same element. -/
theorem Pool.parent_of_role_child {w p : Token} {e : BpmnFlowElement}
    {lc : MultiInstanceLoopCharacteristics} (h : P.role w e = .child lc)
    (hp : w.parentTokenId.bind P.get? = some p) : p.elementId = w.elementId := by
  unfold Pool.role at h
  simp only [hp] at h
  split at h
  · rename_i hfilter
    simpa using (Option.filter_eq_some_iff.1 hfilter).2
  · split_ifs at h

theorem Complete.scoped {w : Token} (hd : d.WellScoped) (hP : P.Contained d) (hnd : P.ids.Nodup)
    (hw : P.Holds w) (htop : P.CompletesOnTop d w) (h : Complete d P w Q origins) :
    ∀ o ∈ origins, o.Scoped d := by
  have hresume : P.autoResume.Contained d := hP
  have hscope := hP.holds hw
  cases h with
  | @child e he lc hrole _ _ h =>
    simp only [Pool.CompletesOnTop, he, hrole] at htop
    refine h.scoped hd hresume hscope he htop fun p hp => ?_
    unfold Token.InScope at hscope
    rw [Pool.parent_of_role_child hrole hp, ← hscope, htop]
  | handler _ hrole h =>
    have hth : P.autoResume.Holds _ := Pool.holds_of_get? (Pool.holds_of_role hrole)
    exact HandlerDone.scoped (P := P.autoResume) hd hnd hresume hw hth h
  | plain he _ _ => exact scoped_advance hd hscope he

theorem Deed.scoped {command : EngineCommand} (hd : d.WellScoped) (hP : P.Contained d)
    (hnd : P.ids.Nodup) (htop : command.Completing (Pool.CompletesOnTop d) P)
    (h : Deed d P command Q origins) : ∀ o ∈ origins, o.Scoped d := by
  cases h with
  | startProcess _ _ _ =>
    intro o ho
    rw [List.mem_singleton.1 ho]
    rintro t ⟨_, element, _, helement, ht⟩
    unfold Token.InScope
    rw [ht]
    show none = d.enclosing element.id
    rw [ProcessDefinition.getElement_id helement]
    exact hd.start.symm
  | completeServiceTask _ hw _ h =>
    exact h.scoped hd hP hnd (Pool.holds_of_mem hw) (htop _ hw rfl)
  | completeUserTask _ _ hw _ h =>
    exact h.scoped hd hP hnd (Pool.holds_of_mem hw) (htop _ hw rfl)
  | @failCaught code _ w hw _ b hb =>
    have hmem : b ∈ d.findBoundariesFor w.elementId := by
      unfold ProcessDefinition.findMatchingErrorBoundary at hb
      rcases Option.or_eq_some_iff.1 hb with hb | ⟨-, hb⟩
      all_goals exact (List.mem_filter.1 (List.mem_of_find?_eq_some hb)).1
    exact scoped_onFlows hd (hP w hw) (hd.boundary hmem).2
  | fireInterrupting hw _ _ he _ => exact scoped_advance hd (hP _ hw) he
  | fireBoundary hw _ _ he _ => exact scoped_advance hd (hP _ hw) he
  | @fireCatch w hw _ htype _ _ h =>
    have hframe := Frame.clearSiblings P w
    exact h.scoped hd (hP.frame hframe) (hframe.nodup hnd) (hframe.holds (Pool.holds_of_mem hw))
      (htop w hw rfl htype)
  | failUncaught _ _ _ _ | suspendInstance _ | resumeInstance _ | cancelInstance =>
    exact scoped_nil

/-! ## Every step keeps the tokens contained -/

theorem Turned.contained {t : Token} (hd : d.WellScoped) (hP : P.Contained d)
    (hcoh : P.Coherent [t])
    (hlevel : ∀ e, d.getElement t.elementId = .ok e → P.KeepsLevel d t e)
    (h : Turned d P t P') : P'.Contained d := by
  obtain ⟨Q, origins, hturn, hmade⟩ := h
  have ht : P.Holds t := hcoh.holds List.mem_cons_self
  exact (hP.frame (hturn.frame hcoh.nodup ht)).spawned
    (hturn.scoped hd hP hcoh.nodup ht hlevel) hmade

theorem Resumes.contained {targets : List Token} (hd : d.WellScoped) (hcoh : P.Coherent [])
    (hP : P.Contained d) (h : Resumes d targets P P') : P'.Contained d := by
  induction h with
  | nil _ => exact hP
  | skip _ _ _ ih => exact ih hcoh hP
  | resume hw hwaiting hresume hmade _ ih =>
    have hframe := hresume.frame hcoh.nodup (Pool.holds_of_mem hw)
    refine ih ((hresume.ready hcoh hw hwaiting).spawned hmade) ((hP.frame hframe).spawned ?_ hmade)
    obtain ⟨he⟩ := hresume
    exact scoped_advance hd (hP _ hw) he

theorem Commanded.contained {command : EngineCommand} (hd : d.WellScoped) (hcoh : P.Coherent [])
    (hP : P.Contained d) (htop : command.Completing (Pool.CompletesOnTop d) P)
    (h : Commanded d P command P') : P'.Contained d := by
  cases h with
  | deed h hmade =>
    exact (hP.frame (h.frame hcoh.nodup)).spawned (h.scoped hd hP hcoh.nodup htop) hmade
  | deliverMessage _ _ h => exact h.contained hd hcoh hP
  | broadcastSignal _ _ h => exact h.contained hd hcoh hP

/-- The step does nothing inside a sub-process that makes tokens without the sub-process's id. -/
def Step.KeepsLevel (d : ProcessDefinition) (st : Step) : Prop :=
  match st.action with
  | .command command => command.Completing (Pool.CompletesOnTop d) st.before.pool
  | .process t =>
      match d.getElement t.elementId with
      | .ok e => st.before.pool.KeepsLevel d t.erase e
      | .error _ => True

instance (st : Step) : Decidable (st.KeepsLevel d) := by
  unfold Step.KeepsLevel
  rcases st.action with command | t
  · infer_instance
  · dsimp only
    rcases d.getElement t.elementId with _ | _ <;> infer_instance

theorem Trace.contained (hd : d.WellScoped) {steps : List Step} {ctx : ExecutionContext}
    (h : Trace d steps ctx) (hlevel : ∀ st ∈ steps, st.KeepsLevel d) : ctx.pool.Contained d := by
  refine h.maintains (C := Step.KeepsLevel d) ?_ ?_ ?_ ?_ hlevel
  · rintro n x ⟨⟩
  · exact fun P n _ _ _ hI => hI
  · exact fun before command after hst hcoh _ hI hcmd => hcmd.contained hd hcoh hI hst
  · intro before t after hst hcoh hI hturned
    have hbefore : before.pool.Contained d := hI
    refine hturned.contained hd hbefore hcoh fun e he => ?_
    unfold Step.KeepsLevel at hst
    simpa only [show d.getElement t.elementId = .ok e from he] using hst

end NexusWorkflow
