import NexusWorkflow.Game.Helpers
import NexusWorkflow.Game.Kinship
import NexusWorkflow.Model.Levels

/-!
# Where new tokens come from

An origin names the token on whose behalf a new one is made.  In every step that token is in the
pool, and the definition says why the new one may follow it: a flow that leaves its element, a
boundary event attached to it, and so on.
-/

namespace NexusWorkflow

variable {d : ProcessDefinition} {P Q P' : Pool} {hand : Option Token} {origins : List Origin}

/-- The element is a throw or an end event, which may start compensation handlers. -/
def BpmnFlowElement.startsHandlers : BpmnFlowElement → Bool
  | .intermediateThrowEvent _ | .endEvent _ => true
  | _ => false

/-- The reasons for which a new token is made, when the given token is in hand. -/
inductive Born (d : ProcessDefinition) (P : Pool) (hand : Option Token) : Origin → Prop
  | start : Born d P hand .start
  /-- The token leaves its element. -/
  | leaves {src : Token} {e : BpmnFlowElement} {flowId : String} (hsrc : P.Holds src)
      (he : d.getElement src.elementId = .ok e)
      (h : flowId ∈ e.outgoingFlows ++ (d.getOutgoingFlows e.id).map (·.id)) :
      Born d P hand (.flow src flowId)
  /-- The parent leaves the element of its last child. -/
  | closes {p c : Token} {e : BpmnFlowElement} {flowId : String} (hp : P.Holds p) (hc : P.Holds c)
      (hparent : c.parentTokenId = some p.id) (he : d.getElement c.elementId = .ok e)
      (hloop : e.loopCharacteristics.isSome = true) (h : flowId ∈ e.outgoingFlows) :
      Born d P hand (.flow p flowId)
  /-- An error boundary event catches the failure of the token's task. -/
  | caught {src : Token} {b : BoundaryEventElement} {flowId : String} (hsrc : P.Holds src)
      (hb : b ∈ d.findBoundariesFor src.elementId) (h : flowId ∈ b.outgoingFlows) :
      Born d P hand (.flow src flowId)
  /-- The cancel boundary event of a transaction fires. -/
  | fires {w : Token} {b : BoundaryEventElement} {s flowId : String} (hw : P.Holds w)
      (hb : b ∈ d.findBoundariesFor s) (hid : w.elementId = b.id) (h : flowId ∈ b.outgoingFlows) :
      Born d P hand (.flow w flowId)
  | arms {host : Token} {b : BoundaryEventElement} (hhost : P.Holds host)
      (hb : b ∈ d.findBoundariesFor host.elementId) : Born d P hand (.boundary host b)
  | enters {outer : Token} {e : BpmnElement} {isTransaction : Bool}
      {elements : List BpmnFlowElement} {flows : List SequenceFlow} {startEventId : String}
      (houter : P.Holds outer)
      (he : d.getElement outer.elementId =
        .ok (.subProcess e isTransaction elements flows startEventId)) :
      Born d P hand (.inner outer startEventId)
  /-- The first items of a multi-instance activity. -/
  | item {p : Token} {e : BpmnFlowElement} (hp : P.Holds p)
      (he : d.getElement p.elementId = .ok e) (hloop : e.loopCharacteristics.isSome = true) :
      Born d P hand (.child p e)
  /-- The next item, when a child is done. -/
  | next {p c : Token} {e : BpmnFlowElement} (hp : P.Holds p) (hc : P.Holds c)
      (hparent : c.parentTokenId = some p.id) (he : d.getElement c.elementId = .ok e)
      (hloop : e.loopCharacteristics.isSome = true) : Born d P hand (.child p e)
  | compensates {source : Token} {place e : BpmnFlowElement} {tag : Option String}
      (hsource : P.Holds source) (hat : d.getElement source.elementId = .ok place)
      (hevent : place.startsHandlers = true) (he : e ∈ d.allElements)
      (htag : tag = none ∨ tag = truthy source.subProcessInstanceId) :
      Born d P hand (.handler source e tag)
  | branch {gate : Token} {g : GatewayElement} {flow : SequenceFlow} (hhand : hand = some gate)
      (hgate : P.Holds gate)
      (he : d.getElement gate.elementId = .ok (.gateway g)) (hg : g.type = .eventBased)
      (hvalid : validateEventBasedGateway g d = .ok ()) (hflow : flow ∈ d.getOutgoingFlows g.id) :
      Born d P hand (.branch gate flow)

theorem Born.frame {o : Origin} (h : Born d P hand o) (hf : Frame P Q) : Born d Q hand o := by
  cases h with
  | start => exact .start
  | leaves hsrc he h => exact .leaves (hf.holds hsrc) he h
  | closes hp hc hparent he hloop h => exact .closes (hf.holds hp) (hf.holds hc) hparent he hloop h
  | caught hsrc hb h => exact .caught (hf.holds hsrc) hb h
  | fires hw hb hid h => exact .fires (hf.holds hw) hb hid h
  | arms hhost hb => exact .arms (hf.holds hhost) hb
  | enters houter he => exact .enters (hf.holds houter) he
  | item hp he hloop => exact .item (hf.holds hp) he hloop
  | next hp hc hparent he hloop => exact .next (hf.holds hp) (hf.holds hc) hparent he hloop
  | compensates hsource hat hevent he htag =>
    exact .compensates (hf.holds hsource) hat hevent he htag
  | branch hhand hgate he hg hvalid hflow =>
    exact .branch hhand (hf.holds hgate) he hg hvalid hflow

/-- All of the origins have their reason. -/
def AllBorn (d : ProcessDefinition) (P : Pool) (hand : Option Token) (origins : List Origin) :
    Prop :=
  ∀ o ∈ origins, Born d P hand o

theorem AllBorn.nil : AllBorn d P hand [] := List.forall_mem_nil _

theorem AllBorn.frame (h : AllBorn d P hand origins) (hf : Frame P Q) : AllBorn d Q hand origins :=
  fun o ho => (h o ho).frame hf

theorem AllBorn.onFlows {src : Token} {flows : List String}
    (h : ∀ flowId ∈ flows, Born d P hand (.flow src flowId)) :
    AllBorn d P hand (onFlows src flows) := by
  intro o ho
  obtain ⟨flowId, hf, rfl⟩ := List.mem_map.1 ho
  exact h flowId hf

/-- A token leaves its element by the flows that the element lists. -/
theorem AllBorn.advance {src : Token} {e : BpmnFlowElement} (hsrc : P.Holds src)
    (he : d.getElement src.elementId = .ok e) :
    AllBorn d P hand (NexusWorkflow.onFlows src e.outgoingFlows) :=
  .onFlows fun _ hf => .leaves hsrc he (List.mem_append_left _ hf)

theorem AllBorn.arms {host : Token} (hhost : P.Holds host) {elementId : String}
    (hid : elementId = host.elementId) :
    AllBorn d P hand ((d.armedBoundaries elementId).map (.boundary host)) := by
  intro o ho
  obtain ⟨b, hb, rfl⟩ := List.mem_map.1 ho
  subst hid
  exact .arms hhost (List.mem_filter.1 hb).1

theorem AllBorn.handlersFor {find : String → Option BpmnFlowElement} {source : Token}
    {tag : Option String} {records : List CompensationRecord} {place : BpmnFlowElement}
    (hsource : P.Holds source) (hat : d.getElement source.elementId = .ok place)
    (hevent : place.startsHandlers = true)
    (hfind : ∀ id e, find id = some e → e ∈ d.allElements)
    (htag : tag = none ∨ tag = truthy source.subProcessInstanceId) :
    AllBorn d P hand (NexusWorkflow.handlersFor find source tag records) := by
  intro o ho
  obtain ⟨r, -, hr⟩ := List.mem_filterMap.1 ho
  obtain ⟨e, he, rfl⟩ := Option.map_eq_some_iff.1 hr
  exact .compensates hsource hat hevent (hfind _ e he) htag

/-! ## The rules -/

theorem Exits.born {joins joins' : KeyedMap GatewayJoinState.gatewayId} {t : Token}
    {e : BpmnFlowElement} {flows : List String} (ht : P.Holds t)
    (he : d.getElement t.elementId = .ok e) (h : Exits d joins t e flows joins') :
    AllBorn d P hand (onFlows t flows) := by
  have hlisted : ∀ {l : List SequenceFlow}, (∀ f ∈ l, f ∈ d.getOutgoingFlows e.id) →
      AllBorn d P hand (onFlows t (l.map (·.id))) := by
    intro l hl
    refine .onFlows fun flowId hf => .leaves ht he (List.mem_append_right _ ?_)
    obtain ⟨f, hfl, rfl⟩ := List.mem_map.1 hf
    exact List.mem_map_of_mem (hl f hfl)
  have hactivated : ∀ {l : List String},
      (∀ flowId ∈ l, ∃ flow ∈ d.getOutgoingFlows e.id, flow.id = flowId) →
      AllBorn d P hand (onFlows t l) := by
    intro l hl
    refine .onFlows fun flowId hf => .leaves ht he (List.mem_append_right _ ?_)
    exact List.mem_map.2 (hl flowId hf)
  cases h with
  | startEvent _ | throwEvent _ | manualTask _ _ | emptyLoop _ _ _ => exact .advance ht he
  | exclusive g _ h => exact hlisted (l := [_]) (List.forall_mem_singleton.2 h)
  | parallelSplit g _ _ _ | parallelFires g _ _ _ _ | inclusiveFires g _ _ _ _ =>
    exact hlisted fun f hf => hf
  | parallelWaits _ _ _ _ _ | inclusiveWaits _ _ _ _ _ => exact .nil
  | inclusiveSplit _ _ _ _ hsub _ | inclusiveSplitJoin _ _ _ _ hsub _ _ _ _ => exact hactivated hsub

theorem Parks.born {t : Token} {e : BpmnFlowElement} {condition : WaitCondition}
    {loopState : Option LoopState} {records : List CompensationRecord} (ht : P.Holds t)
    (he : d.getElement t.elementId = .ok e)
    (h : Parks d P t e condition loopState origins records) : AllBorn d P hand origins := by
  have hid := ProcessDefinition.getElement_id he
  cases h with
  | serviceTask _ _ | userTask _ _ => exact .arms ht hid
  | scriptTask _ _ | catchEvent _ _ | boundaryEvent _ _ => exact .nil
  | sequential _ hlc _ _ _ =>
    intro o ho
    rw [List.mem_singleton.1 ho]
    exact .item ht he (by rw [hlc]; rfl)
  | parallel _ hlc _ _ _ =>
    intro o ho
    rw [List.eq_of_mem_replicate ho]
    exact .item ht he (by rw [hlc]; rfl)
  | subProcess e isTransaction elements flows startEventId =>
    intro o ho
    rcases List.mem_append.1 ho with ho | ho
    · split_ifs at ho
      · exact AllBorn.arms ht hid o ho
      · cases ho
    · rw [List.mem_singleton.1 ho]
      exact .enters ht he
  | throwEvent _ _ _ =>
    refine .handlersFor ht he rfl (fun id e hfind => ?_) (.inl rfl)
    exact mem_elementsInTree_of_mem (List.mem_of_find?_eq_some hfind)

theorem SubEnd.born {s : String} (h : SubEnd d s P Q origins) : AllBorn d P hand origins := by
  cases h with
  | busy _ | orphan _ _ => exact .nil
  | complete _ houter he =>
    obtain ⟨hmem, hid, -⟩ := Pool.waitingAt_eq_some houter
    exact .advance (Pool.holds_of_mem hmem) (hid.symm ▸ he)

theorem FireCancel.born {s : String} {outer : Token} (h : FireCancel d s outer P Q origins) :
    AllBorn d P hand origins := by
  cases h with
  | none _ | unarmed _ _ => exact .nil
  | fire hb hw =>
    obtain ⟨hmem, hid, -⟩ := Pool.waitingAt_eq_some hw
    have hboundary := (List.mem_of_find?_eq_some hb)
    exact .onFlows fun _ hf => .fires (Pool.holds_of_mem hmem) hboundary hid hf

theorem TxCancel.born {s : String} {t : Token} {e : EventElement} (ht : P.Holds t)
    (he : d.getElement t.elementId = .ok (.endEvent e))
    (htag : truthy t.subProcessInstanceId = some s) (h : TxCancel d s t P Q origins) :
    AllBorn d (P.clearScope s t) hand origins := by
  cases h with
  | compensate _ =>
    refine .handlersFor ((Frame.clearScope P s t).holds ht) he rfl (fun id e hfind => ?_)
      (.inr htag.symm)
    exact findElementInTree_mem hfind
  | orphan _ _ => exact .nil
  | fire _ _ hfire => exact hfire.born

theorem Ends.born {R : Pool} {t : Token} {e : EventElement} (ht : P.Holds t)
    (he : d.getElement t.elementId = .ok (.endEvent e))
    (h : Ends d t P e Q origins) (hf : Frame P R) : AllBorn d R hand origins := by
  cases h with
  | cancelTop _ _ | terminate _ | last _ _ _ _ _ | more _ _ _ _ => exact .nil
  | inner _ _ _ h => exact h.born.frame hf
  | cancel _ htag h =>
    exact (h.born ht he htag).frame ((Frame.clearScope P _ t).symm.trans hf)

/-- The parent of a token, looked up. -/
theorem Pool.get?_parent {c p : Token} (h : c.parentTokenId.bind P.get? = some p) :
    P.Holds p ∧ c.parentTokenId = some p.id := by
  obtain ⟨id, hid, hget⟩ := Option.bind_eq_some_iff.1 h
  obtain ⟨hmem, rfl⟩ := Pool.get?_eq_some hget
  exact ⟨Pool.holds_of_mem hmem, hid⟩

theorem ChildDone.born {c : Token} {e : BpmnFlowElement} {lc : MultiInstanceLoopCharacteristics}
    (hc : P.Holds c) (he : d.getElement c.elementId = .ok e)
    (hloop : e.loopCharacteristics.isSome = true) (h : ChildDone c e lc P Q origins) :
    AllBorn d P hand origins := by
  cases h with
  | orphan _ | noLoop _ _ _ | wait _ _ _ => exact .nil
  | lastItem hp _ _ | condition hp _ _ | allDone hp _ _ =>
    obtain ⟨hholds, hparent⟩ := Pool.get?_parent hp
    exact .onFlows fun _ hf => .closes hholds hc hparent he hloop hf
  | next hp _ _ _ =>
    obtain ⟨hholds, hparent⟩ := Pool.get?_parent hp
    intro o ho
    rw [List.mem_singleton.1 ho]
    exact .next hholds hc hparent he hloop

theorem HandlerDone.born {h throwToken : Token} (hP : P.ids.Nodup) (hh : P.Holds h)
    (hth : P.Holds throwToken) (hd : HandlerDone d h throwToken P Q origins) :
    AllBorn d (P.finish h) hand origins := by
  cases hd with
  | wait _ | orphan _ _ _ _ _ => exact .nil
  | fire _ _ _ _ _ hfire => exact hfire.born
  | advance _ he _ => exact .advance ((Frame.finish hP hh).holds hth) he

/-- Every new token of a turn has its reason. -/
theorem Turn.born {t : Token} (hP : P.ids.Nodup) (ht : P.Holds t) (h : Turn d P t Q origins) :
    AllBorn d Q (some t) origins := by
  have hframe := h.frame hP ht
  cases h with
  | pass he hexits _ => exact (hexits.born ht he).frame hframe
  | park he hpark => exact (hpark.born ht he).frame hframe
  | branch he hg hvalid =>
    intro o ho
    obtain ⟨flow, hflow, rfl⟩ := List.mem_map.1 ho
    exact .branch rfl (hframe.holds ht) he hg hvalid hflow
  | ends he hends =>
    have hfinish := Frame.finish hP ht
    exact hends.born (hfinish.holds ht) he (hends.frame (hfinish.nodup hP))
  | child he hlc _ hdone =>
    exact (hdone.born ht he (by rw [BpmnFlowElement.loopCharacteristics, hlc]; rfl)).frame hframe

theorem Pool.loop_of_role {w : Token} {e : BpmnFlowElement} {lc : MultiInstanceLoopCharacteristics}
    (h : P.role w e = .child lc) : e.loopCharacteristics.isSome = true := by
  unfold role at h
  split at h
  · cases h
  · split at h
    · rename_i hlc
      obtain ⟨hsome, -⟩ := Option.filter_eq_some_iff.1 hlc
      rw [hsome]
      rfl
    · split_ifs at h

theorem Complete.born {w : Token} (hP : P.ids.Nodup) (hw : P.Holds w)
    (h : Complete d P w Q origins) : AllBorn d Q hand origins := by
  have hframe := h.frame hP hw
  have hresume := Frame.autoResume P
  cases h with
  | child he hrole hdone =>
    have hborn : AllBorn d P.autoResume hand origins :=
      hdone.born (hresume.holds hw) he (Pool.loop_of_role hrole)
    exact hborn.frame (hdone.frame (hresume.nodup hP) (hresume.holds hw))
  | handler _ hrole hdone =>
    have hth := Pool.holds_of_get? (Pool.holds_of_role hrole)
    have hborn : AllBorn d (P.autoResume.finish w) hand origins :=
      hdone.born (hresume.nodup hP) (hresume.holds hw) (hresume.holds hth)
    have hfinish := hresume.trans (Frame.finish (hresume.nodup hP) (hresume.holds hw))
    exact hborn.frame (hfinish.symm.trans hframe)
  | plain he _ _ => exact (AllBorn.advance hw he).frame hframe

theorem Resume.born {w : Token} (hP : P.ids.Nodup) (hw : P.Holds w)
    (h : Resume d P w Q origins) : AllBorn d Q hand origins := by
  have hframe := h.frame hP hw
  obtain ⟨he⟩ := h
  exact (AllBorn.advance hw he).frame hframe

theorem mem_findBoundariesFor_of_matching {elementId code : String} {b : BoundaryEventElement}
    (h : d.findMatchingErrorBoundary elementId code = some b) :
    b ∈ d.findBoundariesFor elementId := by
  unfold ProcessDefinition.findMatchingErrorBoundary at h
  rcases Option.or_eq_some_iff.1 h with h | ⟨-, h⟩
  · exact (List.mem_filter.1 (List.mem_of_find?_eq_some h)).1
  · exact (List.mem_filter.1 (List.mem_of_find?_eq_some h)).1

theorem Deed.born {command : EngineCommand} (hP : P.ids.Nodup) (h : Deed d P command Q origins) :
    AllBorn d Q hand origins := by
  have hframe := h.frame hP
  cases h with
  | startProcess _ _ _ =>
    intro o ho
    rw [List.mem_singleton.1 ho]
    exact .start
  | completeServiceTask _ hw _ h => exact h.born hP (Pool.holds_of_mem hw)
  | completeUserTask _ _ hw _ h => exact h.born hP (Pool.holds_of_mem hw)
  | @fireCatch w hw _ _ _ _ h =>
    have hclear := Frame.clearSiblings P w
    exact h.born (hclear.nodup hP) (hclear.holds (Pool.holds_of_mem hw))
  | failCaught _ hw _ hb =>
    have hboundary := mem_findBoundariesFor_of_matching hb
    exact .onFlows fun _ hf => .caught (hframe.holds (Pool.holds_of_mem hw)) hboundary hf
  | fireInterrupting hw _ _ he _ | fireBoundary hw _ _ he _ =>
    exact .advance (hframe.holds (Pool.holds_of_mem hw)) he
  | failUncaught _ _ _ _ | suspendInstance _ | resumeInstance _ | cancelInstance => exact .nil

/-! ## An invariant of all tokens -/

/-- What a token is, apart from what changes while it stands at its element, has the property. -/
def Pool.Always (I : Token → Prop) (P : Pool) : Prop := ∀ x ∈ P.tokens, I x

section Always

variable {I : Token → Prop}

theorem Pool.Always.holds (hbare : ∀ x y : Token, x.bare = y.bare → I x → I y) (h : P.Always I)
    {x : Token} (hx : P.Holds x) : I x := by
  obtain ⟨y, hy, hyx⟩ := Pool.holds_iff.1 hx
  exact hbare y x hyx (h y hy)

theorem Pool.Always.frame (hbare : ∀ x y : Token, x.bare = y.bare → I x → I y) (h : P.Always I)
    (hf : Frame P Q) : Q.Always I := by
  intro y hy
  obtain ⟨x, hx, hxy⟩ := hf.exists_mem' hy
  exact hbare x y hxy (h x hx)

theorem Pool.Always.spawned (h : P.Always I)
    (hborn : ∀ o ∈ origins, ∀ x, Made d o x → I x) (hmade : Spawned (Made d) origins P P') :
    P'.Always I := by
  obtain ⟨news, n, hR, -, rfl⟩ := hmade
  intro x hx
  rcases List.mem_append.1 hx with hx | hx
  · exact h x hx
  · obtain ⟨o, ho, hox⟩ := exists_of_forall₂_right hR hx
    exact hborn o ho x hox

/-- The rule for what holds of every token at its place: new tokens have it if the tokens that they
come from do. -/
theorem Always.turned {t : Token} (hbare : ∀ x y : Token, x.bare = y.bare → I x → I y)
    (hnew : ∀ (P : Pool) (hand : Option Token) (o : Origin) (x : Token), P.ids.Nodup → P.Always I →
      Born d P hand o → Made d o x → I x)
    (hP : P.Coherent [t]) (h : P.Always I) (hturn : Turn d P t Q origins)
    (hmade : Spawned (Made d) origins Q P') : P'.Always I := by
  have ht := hP.holds List.mem_cons_self
  have hframe := hturn.frame hP.nodup ht
  have hQ := h.frame hbare hframe
  exact hQ.spawned (fun o ho x hx => hnew Q _ o x (hframe.nodup hP.nodup) hQ
    (hturn.born hP.nodup ht o ho) hx) hmade

theorem Always.commanded {command : EngineCommand}
    (hbare : ∀ x y : Token, x.bare = y.bare → I x → I y)
    (hnew : ∀ (P : Pool) (hand : Option Token) (o : Origin) (x : Token), P.ids.Nodup → P.Always I →
      Born d P hand o → Made d o x → I x)
    (hP : P.Coherent []) (h : P.Always I) (hcommand : Commanded d P command P') : P'.Always I := by
  have hresumes : ∀ {targets : List Token} {P P' : Pool}, P.Coherent [] → P.Always I →
      Resumes d targets P P' → P'.Always I := by
    intro targets P P' hP h hr
    induction hr with
    | nil _ => exact h
    | skip _ _ _ ih => exact ih hP h
    | @resume w rest P P' hw hwaiting Q mid origins hresume hmade _ ih =>
      have hholds := Pool.holds_of_mem hw
      have hframe := hresume.frame hP.nodup hholds
      have hQ := h.frame hbare hframe
      refine ih ((hresume.ready hP hw hwaiting).spawned hmade)
        (hQ.spawned (fun o ho x hx => ?_) hmade)
      exact hnew Q none o x (hframe.nodup hP.nodup) hQ (hresume.born hP.nodup hholds o ho) hx
  cases hcommand with
  | deed hd hmade =>
    have hframe := hd.frame hP.nodup
    have hQ := h.frame hbare hframe
    exact hQ.spawned (fun o ho x hx => hnew _ none o x (hframe.nodup hP.nodup) hQ
      (hd.born hP.nodup o ho) hx) hmade
  | deliverMessage _ _ hr | broadcastSignal _ _ hr => exact hresumes hP h hr

end Always

/-! ## Tags -/

/-- The tag of the token is the id of a sub-process. -/
def Token.Tagged (d : ProcessDefinition) (t : Token) : Prop :=
  ∀ s, truthy t.subProcessInstanceId = some s →
    ∃ e, d.getElement s = .ok e ∧ e.isSubProcess = true

theorem Token.Tagged.of_bare {x y : Token} (h : x.bare = y.bare) (hx : x.Tagged d) :
    y.Tagged d := by
  intro s hs
  rw [← Token.tag_of_bare h] at hs
  exact hx s hs

theorem truthy_truthy (tag : Option String) : truthy (truthy tag) = truthy tag := by
  unfold truthy
  cases tag with
  | none => rfl
  | some s => by_cases h : s = "" <;> simp [Option.filter, h]

/-- New tokens are tagged if those they come from are. -/
theorem Token.tagged_of_born {o : Origin} {x : Token} (hP : P.Always (Token.Tagged d))
    (hborn : Born d P hand o) (hx : Made d o x) : x.Tagged d := by
  have hnone : x.subProcessInstanceId = none → x.Tagged d := by
    intro h s hs
    rw [h] at hs
    cases hs
  have hsame : ∀ {src : Token}, P.Holds src →
      x.subProcessInstanceId = truthy src.subProcessInstanceId → x.Tagged d := by
    intro src hsrc h s hs
    rw [h, truthy_truthy] at hs
    exact hP.holds (fun _ _ => Token.Tagged.of_bare) hsrc s hs
  cases hborn with
  | start =>
    obtain ⟨_, _, _, -, hx⟩ := hx
    exact hnone (by rw [hx]; rfl)
  | leaves hsrc _ _ | closes hsrc _ _ _ _ _ | caught hsrc _ _ | fires hsrc _ _ _ =>
    obtain ⟨_, _, -, -, hx⟩ := hx
    exact hsame hsrc (by rw [hx]; rfl)
  | arms hhost _ =>
    have hx : x = _ := hx
    exact hsame hhost (by rw [hx]; rfl)
  | @enters outer _ _ _ _ _ houter he =>
    obtain ⟨_, _, hx⟩ := hx
    intro s hs
    have htag : x.subProcessInstanceId = some outer.elementId := by rw [hx]; rfl
    rw [htag] at hs
    have hid : outer.elementId = s := Option.some.inj (Option.filter_eq_some_iff.1 hs).1
    exact ⟨_, hid ▸ he, rfl⟩
  | item _ _ _ | next _ _ _ _ _ =>
    obtain ⟨_, hx⟩ := hx
    exact hnone (by rw [hx]; rfl)
  | compensates hsource _ _ _ htag =>
    obtain ⟨_, hx⟩ := hx
    rcases htag with rfl | rfl
    · exact hnone (by rw [hx]; rfl)
    · exact hsame hsource (by rw [hx]; rfl)
  | branch _ _ _ _ _ _ =>
    obtain ⟨_, -, hx⟩ := hx
    exact hnone (by rw [hx]; rfl)

end NexusWorkflow
