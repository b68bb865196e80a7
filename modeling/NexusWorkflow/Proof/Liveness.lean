import NexusWorkflow.Run.Diagram

/-!
# No dead instance

While an instance is active or suspended, some token should wait, so that a later command can move
it.  The engine looks at this in `handleEndEvent` only: a token that is consumed anywhere else, at
an element without outgoing flow, at a join, at a cancel end event on the top level, may be the last
one, and the instance stays active for ever.  Where every step either finds a way on or leaves
another token to go on with, no instance is dead.
-/

namespace NexusWorkflow

open ExecutionContext

/-- The claim about a state: an instance that is not over has a waiting token. -/
def EngineState.Alive (state : EngineState) : Prop :=
  state.inst.status = .active ∨ state.inst.status = .suspended →
    ∃ t ∈ state.tokens, t.status = .waiting

namespace Pool

variable (d : ProcessDefinition) (P : Pool)

/-- A token waits or is in the queue. -/
def HasWork : Prop := P.pending ≠ [] ∨ ∃ x ∈ P.tokens, x.status = .waiting

/-- An instance that is not over has work left. -/
def Alive : Prop := P.status = some .active ∨ P.status = some .suspended → P.HasWork

/-! ## Where a step goes on -/

/-- The cancel boundary event, if a token waits there, has an outgoing flow. -/
def CancelGoesOn (s : String) : Prop :=
  ∀ b ∈ d.cancelBoundary s, P.waitingAt b.id ≠ none → b.outgoingFlows ≠ []

instance (s : String) : Decidable (P.CancelGoesOn d s) := by
  unfold CancelGoesOn
  infer_instance

/-- `checkSubProcessCompletion`: a token is left inside, or the one outside has an outgoing flow. -/
def SubEndGoesOn (s : String) : Prop := P.Busy s ∨ P.waitingAt s ≠ none ∧ d.exits s ≠ []

instance (s : String) : Decidable (P.SubEndGoesOn d s) := inferInstanceAs (Decidable (_ ∨ _))

/-- `handleTransactionCancel`: a compensation handler is found or, without compensation, the token
outside goes on. -/
def TxGoesOn (s : String) (t : Token) : Prop :=
  if P.records = [] then
    (P.clearScope s t).waitingAt s ≠ none ∧ (P.clearScope s t).CancelGoesOn d s
  else ∃ r ∈ P.records, findElementInTree d.elements r.handlerId ≠ none

instance (s : String) (t : Token) : Decidable (P.TxGoesOn d s t) :=
  inferInstanceAs (Decidable (ite _ _ _))

/-- `handleEndEvent`, when the token has been completed. -/
def EndsGoesOn (t : Token) (e : EventElement) : Prop :=
  match e.eventDefinition.type with
  | .cancel => ∃ s ∈ truthy t.subProcessInstanceId, P.TxGoesOn d s t
  | .terminate => True
  | _ => ∀ s ∈ truthy t.subProcessInstanceId, P.SubEndGoesOn d s

instance (t : Token) (e : EventElement) : Decidable (P.EndsGoesOn d t e) := by
  unfold EndsGoesOn
  rcases e.eventDefinition.type with _ | _ | _ | _ | _ | _ | _ | _ | _ | _ | _ <;> infer_instance

/-- `handleMultiInstanceChildCompletion`: the activity has an outgoing flow, and a sequential one
its loop state. -/
def ChildGoesOn (c : Token) (e : BpmnFlowElement) (lc : MultiInstanceLoopCharacteristics) : Prop :=
  e.outgoingFlows ≠ [] ∧
    (lc.isSequential = true → ∀ p ∈ c.parentTokenId.bind P.get?, p.loopState.isSome)

instance (c : Token) (e : BpmnFlowElement) (lc : MultiInstanceLoopCharacteristics) :
    Decidable (P.ChildGoesOn c e lc) :=
  inferInstanceAs (Decidable (_ ∧ _))

/-- The source of the handlers, when the last of them is done: a cancel end event inside a
transaction goes on outside, any other element needs an outgoing flow. -/
def SourceGoesOn (throwToken : Token) : Prop :=
  match d.getElement throwToken.elementId with
  | .error _ => True
  | .ok e =>
      match truthy throwToken.subProcessInstanceId with
      | none => e.outgoingFlows ≠ []
      | some s =>
          if e.isCancelEnd then P.waitingAt s ≠ none ∧ P.CancelGoesOn d s
          else e.outgoingFlows ≠ []

instance (throwToken : Token) : Decidable (P.SourceGoesOn d throwToken) := by
  unfold SourceGoesOn
  rcases d.getElement throwToken.elementId with _ | e
  · infer_instance
  · dsimp only
    rcases truthy throwToken.subProcessInstanceId with _ | _ <;> infer_instance

/-- `handleCompensationHandlerCompletion`. -/
def HandlerGoesOn (h throwToken : Token) : Prop :=
  (P.finish h).ChildrenFinished throwToken.id → (P.finish h).SourceGoesOn d throwToken

instance (h throwToken : Token) : Decidable (P.HandlerGoesOn d h throwToken) :=
  inferInstanceAs (Decidable (_ → _))

/-- The join fires when the token arrives; without a flow of its own it counts for the first one. -/
def JoinFires (g : GatewayElement) (t : Token) : Prop :=
  match d.getIncomingFlows g.id with
  | [] => False
  | first :: rest =>
      match P.joins.get? g.id with
      | some (.parallel state) =>
          (evaluateParallelJoin (t.arrivedViaFlowId.getD first.id) state).fires
      | some (.inclusive state) =>
          (evaluateInclusiveJoin (t.arrivedViaFlowId.getD first.id) state).fires
      | none => (evaluateParallelJoin (t.arrivedViaFlowId.getD first.id)
          { gatewayId := g.id, instanceId := 0, activationId := 0, arrivedFromFlows := []
            expectedFlows := (first :: rest).map (·.id) }).fires

instance (g : GatewayElement) (t : Token) : Decidable (P.JoinFires d g t) := by
  unfold JoinFires
  split
  · infer_instance
  · split <;> infer_instance

/-- A gateway sends the token on: a join fires, and where all flows are taken there is one. -/
def GatewayGoesOn (g : GatewayElement) (t : Token) : Prop :=
  match g.type with
  | .exclusive => True
  | .eventBased => d.getOutgoingFlows g.id ≠ []
  | .parallel | .inclusive => (d.getIncomingFlows g.id).length ≤ 1 ∨
      P.JoinFires d g t ∧ d.getOutgoingFlows g.id ≠ []

instance (g : GatewayElement) (t : Token) : Decidable (P.GatewayGoesOn d g t) := by
  unfold GatewayGoesOn
  rcases g.type with _ | _ | _ | _ <;> infer_instance

/-- `processToken`: the element makes the token wait, or sends it on. -/
def TurnGoesOn (t : Token) (e : BpmnFlowElement) : Prop :=
  match e with
  | .endEvent e => (P.finish t).EndsGoesOn d t e
  | .gateway g => P.GatewayGoesOn d g t
  | .manualTask e =>
      match e.loopCharacteristics with
      | none => e.outgoingFlows ≠ []
      | some lc =>
          if t.parentTokenId = none then e.outgoingFlows ≠ []
          else P.ChildGoesOn t (.manualTask e) lc
  | .startEvent e | .intermediateThrowEvent e => e.outgoingFlows ≠ []
  | e => e.loopCharacteristics ≠ none ∧ t.parentTokenId = none → e.outgoingFlows ≠ []

instance (t : Token) (e : BpmnFlowElement) : Decidable (P.TurnGoesOn d t e) := by
  unfold TurnGoesOn
  rcases e with _ | _ | _ | _ | _ | _ | _ | _ | e | _ | _ | _ <;> try infer_instance
  dsimp only
  rcases e.loopCharacteristics with _ | _ <;> infer_instance

/-- `handleCompleteTask`. -/
def CompleteGoesOn (w : Token) : Prop :=
  match d.getElement w.elementId with
  | .error _ => True
  | .ok e =>
      match P.role w e with
      | .child lc => P.ChildGoesOn w e lc
      | .handler throwToken => P.HandlerGoesOn d w throwToken
      | .plain => e.outgoingFlows ≠ []

instance (w : Token) : Decidable (P.CompleteGoesOn d w) := by
  unfold CompleteGoesOn
  rcases d.getElement w.elementId with _ | e
  · infer_instance
  · dsimp only
    rcases P.role w e with _ | _ | _ <;> infer_instance

/-- A target is moved on, unless there is none. -/
def TargetsGoOn (targets : List Token) : Prop :=
  targets = [] ∨ resumedOrigins d [] targets ≠ []

instance (targets : List Token) : Decidable (TargetsGoOn d targets) := by
  unfold TargetsGoOn resumedOrigins
  infer_instance

/-- A command handler, up to its call of the run loop. -/
def CommandGoesOn : EngineCommand → Prop
  | .completeServiceTask id _ | .completeUserTask id _ _ =>
      ∀ w ∈ P.tokens, w.id = id → P.CompleteGoesOn d w
  | .failServiceTask id code _ => ∀ w ∈ P.tokens, w.id = id →
      ∀ b ∈ d.findMatchingErrorBoundary w.elementId code, b.outgoingFlows ≠ []
  | .fireTimer id => ∀ w ∈ P.tokens, w.id = id →
      if w.elementType = .boundaryEvent then d.exits w.elementId ≠ []
      else (P.clearSiblings w).CompleteGoesOn d w
  | .deliverMessage name _ => TargetsGoOn d (P.tokens.filter (Token.awaitsMessage name))
  | .broadcastSignal name _ => TargetsGoOn d (P.tokens.filter (Token.awaitsSignal name))
  | .startProcess _ _ _ | .suspendInstance | .resumeInstance | .cancelInstance => True

instance (command : EngineCommand) : Decidable (P.CommandGoesOn d command) := by
  unfold CommandGoesOn
  rcases command with _ | _ | _ | _ | _ | _ | _ | _ | _ | _ <;> infer_instance

end Pool

/-- The step finds a way on. -/
def Step.FindsWay (d : ProcessDefinition) (st : Step) : Prop :=
  match st.action with
  | .command command => st.before.pool.CommandGoesOn d command
  | .process t =>
      match d.getElement t.elementId with
      | .ok e => st.before.pool.TurnGoesOn d t.erase e
      | .error _ => True

instance (d : ProcessDefinition) (st : Step) : Decidable (st.FindsWay d) := by
  unfold Step.FindsWay
  rcases st.action with command | t
  · infer_instance
  · dsimp only
    rcases d.getElement t.elementId with _ | _ <;> infer_instance

/-- The step finds a way on, or leaves another token waiting or in the queue. -/
def Step.GoesOn (d : ProcessDefinition) (st : Step) : Prop :=
  (∃ x ∈ st.before.pool.tokens, x.status = .waiting ∧ ¬ st.Touches d x) ∨
    st.before.pool.pending ≠ [] ∨ st.FindsWay d

instance (d : ProcessDefinition) (st : Step) : Decidable (st.GoesOn d) :=
  inferInstanceAs (Decidable (_ ∨ _))

variable {d : ProcessDefinition} {P Q P' : Pool} {origins : List Origin}

open Pool

/-! ## The rules find work -/

/-- A rule leaves work: new tokens, the queue or a waiting token. -/
def Leaves (Q : Pool) (origins : List Origin) : Prop := origins ≠ [] ∨ Q.HasWork

theorem Leaves.waiting {x : Token} (hx : x ∈ Q.tokens) (hw : x.status = .waiting) :
    Leaves Q origins :=
  Or.inr (Or.inr ⟨x, hx, hw⟩)

theorem Leaves.onFlows {src : Token} {flows : List String} (h : flows ≠ []) :
    Leaves Q (onFlows src flows) :=
  Or.inl (by simpa [NexusWorkflow.onFlows] using h)

theorem Leaves.hasWork (h : Leaves Q origins) (hmade : Spawned (Made d) origins Q P') :
    P'.HasWork := by
  obtain ⟨news, hpending, hlength⟩ := hmade.pending
  rcases h with hne | hpend | ⟨x, hx, hw⟩
  · left
    rw [hpending]
    intro hnil
    rw [(List.append_eq_nil_iff.1 hnil).2] at hlength
    exact hne (List.eq_nil_of_length_eq_zero hlength.symm)
  · left
    rw [hpending]
    simp [hpend]
  · exact Or.inr ⟨x, hmade.stays hx, hw⟩

/-- An unfinished token means work: it waits or is in the queue. -/
theorem Pool.Coherent.hasWork (hP : P.Coherent []) {x : Token} (hx : x ∈ P.tokens)
    (hnot : ¬ x.Finished) : P.HasWork := by
  have hsuspended := hP.notSuspended x hx
  by_cases hw : x.status = .waiting
  · exact Or.inr ⟨x, hx, hw⟩
  · left
    have hactive : x.status = .active := by
      unfold Token.Finished at hnot
      cases h : x.status <;> simp_all
    exact List.ne_nil_of_mem (hP.active x hx hactive)

theorem Pool.Coherent.hasWork_of_children (hP : P.Coherent []) {parent : Nat}
    (h : ¬ P.ChildrenFinished parent) : P.HasWork := by
  unfold ChildrenFinished at h
  push Not at h
  obtain ⟨x, hx, -, hnot⟩ := h
  exact hP.hasWork hx hnot

theorem SubEnd.leaves {s : String} (hP : P.Coherent []) (hgoes : P.SubEndGoesOn d s)
    (h : SubEnd d s P Q origins) : Leaves Q origins := by
  cases h with
  | busy hbusy =>
    obtain ⟨x, hx, -, hlive⟩ := hbusy
    exact Or.inr (hP.hasWork hx fun hfin => by simp [Token.not_live_of_finished hfin] at hlive)
  | orphan hbusy houter =>
    rcases hgoes with hb | ⟨hne, -⟩
    · exact absurd hb hbusy
    · exact absurd houter hne
  | complete hbusy _ he =>
    rcases hgoes with hb | ⟨-, hexits⟩
    · exact absurd hb hbusy
    · rw [ProcessDefinition.exits_of_getElement he] at hexits
      exact .onFlows hexits

theorem FireCancel.leaves {s : String} {outer : Token} (houter : outer ∈ P.tokens)
    (hwaiting : outer.status = .waiting) (hgoes : P.CancelGoesOn d s)
    (h : FireCancel d s outer P Q origins) : Leaves Q origins := by
  cases h with
  | none _ => exact .waiting houter hwaiting
  | unarmed _ _ => exact .waiting houter hwaiting
  | fire hb hw => exact .onFlows (hgoes _ hb (by simp [hw]))

theorem TxCancel.leaves {s : String} {t : Token} (hgoes : P.TxGoesOn d s t)
    (h : TxCancel d s t P Q origins) : Leaves Q origins := by
  unfold TxGoesOn at hgoes
  cases h with
  | compensate hne =>
    rw [if_neg hne] at hgoes
    obtain ⟨r, hr, hfound⟩ := hgoes
    obtain ⟨e, he⟩ := Option.ne_none_iff_exists'.1 hfound
    refine Or.inl (List.ne_nil_of_mem (a := .handler t e (some s)) ?_)
    refine List.mem_filterMap.2 ⟨r, ?_, by simp [he]⟩
    simpa [latestFirst] using hr
  | orphan hrecords houter =>
    rw [if_pos hrecords] at hgoes
    exact absurd houter hgoes.1
  | fire hrecords houter hfire =>
    rw [if_pos hrecords] at hgoes
    obtain ⟨hm, -, hw⟩ := waitingAt_eq_some houter
    exact hfire.leaves hm hw hgoes.2

/-- An end event leaves work, or the instance is over. -/
theorem Ends.leaves {t : Token} {e : EventElement} (hP : P.Coherent [])
    (hgoes : P.EndsGoesOn d t e) (h : Ends d t P e Q origins) :
    Q.status = some .completed ∨ Leaves Q origins := by
  cases h with
  | cancelTop he htag =>
    simp only [EndsGoesOn, he, htag] at hgoes
    simp at hgoes
  | cancel he htag h =>
    simp only [EndsGoesOn, he, htag] at hgoes
    obtain ⟨s, hs, hgoes⟩ := hgoes
    obtain rfl := Option.some.inj hs
    exact Or.inr (h.leaves hgoes)
  | terminate _ => exact Or.inl rfl
  | inner hc ht htag h =>
    refine Or.inr (h.leaves hP ?_)
    unfold EndsGoesOn at hgoes
    split at hgoes
    · contradiction
    · contradiction
    · exact hgoes _ htag
  | last _ _ _ _ _ => exact Or.inl rfl
  | more _ _ _ hmore =>
    right
    right
    by_contra hno
    refine hmore ⟨fun x hx => ?_, ?_⟩
    · by_contra hlive
      exact hno (hP.hasWork hx fun hfin => hlive (Token.not_live_of_finished hfin))
    · by_contra hpending
      exact hno (Or.inl hpending)

theorem ChildDone.leaves {c : Token} {e : BpmnFlowElement} {lc : MultiInstanceLoopCharacteristics}
    (hfin : (P.finish c).Coherent []) (hparent : c.parentTokenId.bind P.get? ≠ none)
    (hgoes : P.ChildGoesOn c e lc) (h : ChildDone c e lc P Q origins) : Leaves Q origins := by
  obtain ⟨hexits, hloop⟩ := hgoes
  cases h with
  | orphan hnone => exact absurd hnone hparent
  | noLoop hp hseq hnone =>
    have hsome := hloop hseq _ hp
    simp [hnone] at hsome
  | next _ _ _ _ => exact Or.inl (List.cons_ne_nil _ _)
  | lastItem _ _ _ => exact .onFlows hexits
  | condition _ _ _ => exact .onFlows hexits
  | allDone _ _ _ => exact .onFlows hexits
  | wait _ _ hall => exact Or.inr (hfin.hasWork_of_children hall)

theorem HandlerDone.leaves {w throwToken : Token} (hfin : (P.finish w).Coherent [])
    (hgoes : P.HandlerGoesOn d w throwToken) (h : HandlerDone d w throwToken P Q origins) :
    Leaves Q origins := by
  unfold HandlerGoesOn SourceGoesOn at hgoes
  cases h with
  | wait hall => exact Or.inr (hfin.hasWork_of_children hall)
  | orphan hall he hc htag houter =>
    have h := hgoes hall
    simp only [he, htag, if_pos hc] at h
    exact absurd houter h.1
  | fire hall he hc htag houter hfire =>
    have h := hgoes hall
    simp only [he, htag, if_pos hc] at h
    obtain ⟨hm, -, hw⟩ := waitingAt_eq_some houter
    exact hfire.leaves hm hw h.2
  | advance hall he hc =>
    have h := hgoes hall
    simp only [he] at h
    apply Leaves.onFlows
    rcases hc with hc | htag
    · cases htag : truthy throwToken.subProcessInstanceId with
      | none => simpa [htag] using h
      | some s => simpa [htag, hc] using h
    · simpa [htag] using h

/-- The state of a parallel join decides whether it fires. -/
theorem JoinStart.fires {g : GatewayElement} {t : Token} {first : SequenceFlow}
    {rest : List SequenceFlow} (hin : d.getIncomingFlows g.id = first :: rest)
    {state : ParallelGatewayJoinState}
    (h : JoinStart P.joins g.id (d.getIncomingFlows g.id) state) (hfires : P.JoinFires d g t) :
    (evaluateParallelJoin (t.arrivedViaFlowId.getD first.id) state).fires = true := by
  unfold JoinFires at hfires
  rw [hin] at hfires
  cases h with
  | stored hstate =>
    simp only [hstate] at hfires
    exact hfires
  | fresh hnone _ harrived hexpected =>
    simp only [hnone] at hfires
    rw [hin] at hexpected
    unfold evaluateParallelJoin at hfires ⊢
    rw [harrived, hexpected]
    exact hfires

/-- A token that passes its element goes on. -/
theorem Exits.goesOn {t : Token} {e : BpmnFlowElement} {flows : List String}
    {joins : KeyedMap GatewayJoinState.gatewayId} (hgoes : P.TurnGoesOn d t e)
    (h : Exits d P.joins t e flows joins) : flows ≠ [] := by
  cases h with
  | startEvent e => exact hgoes
  | throwEvent e => exact hgoes
  | manualTask e hloop =>
    simp only [TurnGoesOn, hloop] at hgoes
    exact hgoes
  | emptyLoop e hloop hparent =>
    cases e with
    | manualTask e =>
      simp only [BpmnFlowElement.loopCharacteristics] at hloop
      simp only [TurnGoesOn, hloop, if_pos hparent] at hgoes
      exact hgoes
    | serviceTask e => exact hgoes ⟨by simp [hloop], hparent⟩
    | userTask e => exact hgoes ⟨by simp [hloop], hparent⟩
    | scriptTask e => exact hgoes ⟨by simp [hloop], hparent⟩
    | _ => cases hloop
  | exclusive g _ _ => exact List.cons_ne_nil _ _
  | parallelSplit g _ _ hout => simpa using hout
  | inclusiveSplit g _ _ hne _ _ => exact hne
  | inclusiveSplitJoin g _ _ hne _ _ _ _ _ => exact hne
  | parallelFires g hg hin _ _ =>
    simp only [TurnGoesOn, GatewayGoesOn, hg] at hgoes
    have hlen : ¬ (d.getIncomingFlows g.id).length ≤ 1 := by simp [hin]
    simpa using (hgoes.resolve_left hlen).2
  | inclusiveFires g hg hin _ _ =>
    simp only [TurnGoesOn, GatewayGoesOn, hg] at hgoes
    have hlen : ¬ (d.getIncomingFlows g.id).length ≤ 1 := by simp [hin]
    simpa using (hgoes.resolve_left hlen).2
  | parallelWaits g hg hin hstate hfires =>
    simp only [TurnGoesOn, GatewayGoesOn, hg] at hgoes
    have hlen : ¬ (d.getIncomingFlows g.id).length ≤ 1 := by simp [hin]
    rw [hstate.fires hin (hgoes.resolve_left hlen).1] at hfires
    cases hfires
  | inclusiveWaits g hg hin hstate hfires =>
    simp only [TurnGoesOn, GatewayGoesOn, hg] at hgoes
    have hlen : ¬ (d.getIncomingFlows g.id).length ≤ 1 := by simp [hin]
    have hjoin := (hgoes.resolve_left hlen).1
    unfold JoinFires at hjoin
    simp only [hin, hstate] at hjoin
    rw [hjoin] at hfires
    cases hfires

/-- What a token at its element leaves behind, before the rules look at other tokens. -/
theorem Turn.leaves {t : Token} (hP : P.Coherent [t])
    (hgoes : ∀ e, d.getElement t.elementId = .ok e → P.TurnGoesOn d t e)
    (h : Turn d P t Q origins) : Q.status = some .completed ∨ Leaves Q origins := by
  have ht : P.Holds t := hP.holds List.mem_cons_self
  have hfin : (P.finish t).Coherent [] := hP.finish_hand
  cases h with
  | pass he hexit _ => exact Or.inr (.onFlows (hexit.goesOn (hgoes _ he)))
  | @park _ _ condition loopState _ _ _ =>
    obtain ⟨x, hx, hb⟩ := Pool.holds_iff.1 ht
    have hmem : { t with status := .waiting, waitingFor := some condition, loopState } ∈
        (P.park t condition loopState).tokens :=
      List.mem_map.2 ⟨x, hx, if_pos (Token.id_of_bare hb)⟩
    exact Or.inr (.waiting hmem rfl)
  | branch he hg _ =>
    have h := hgoes _ he
    simp only [TurnGoesOn, GatewayGoesOn, hg] at h
    exact Or.inr (Or.inl (by simpa using h))
  | ends he h => exact h.leaves hfin (hgoes _ he)
  | @child e he lc hlc hparent _ _ h =>
    have hchild := hgoes _ he
    simp only [TurnGoesOn, hlc, if_neg hparent] at hchild
    exact Or.inr (h.leaves hfin (hP.get?_parent ht hparent) hchild)

theorem Complete.leaves {w : Token} (hP : P.Coherent []) (hw : w ∈ P.tokens)
    (hwaiting : w.status = .waiting) (hgoes : P.CompleteGoesOn d w)
    (h : Complete d P w Q origins) : Leaves Q origins := by
  have hr : P.autoResume.Coherent [] := hP.of_eq rfl rfl rfl
  have hfin : (P.autoResume.finish w).Coherent [] :=
    hr.finish (Pool.holds_of_mem hw) (hr.waiting_notMem_flight hw hwaiting)
  unfold CompleteGoesOn at hgoes
  cases h with
  | child he hrole h =>
    simp only [he, hrole] at hgoes
    exact ChildDone.leaves (P := P.autoResume) hfin (parent_of_role hrole) hgoes h
  | handler he hrole h =>
    simp only [he, hrole] at hgoes
    exact HandlerDone.leaves (P := P.autoResume) hfin hgoes h
  | plain he hrole _ =>
    simp only [he, hrole] at hgoes
    exact .onFlows hgoes

/-- What a command leaves: work, or an instance that is over. -/
theorem Deed.leaves {command : EngineCommand} (hP : P.Coherent []) (hpending : P.pending = [])
    (halive : P.Alive) (hgoes : P.CommandGoesOn d command) (h : Deed d P command Q origins) :
    Q.status = some .terminated ∨ Leaves Q origins := by
  have hrest : P.status = some .active ∨ P.status = some .suspended → Leaves Q origins ∨
      ∃ x ∈ P.tokens, x.status = .waiting := fun hs =>
    Or.inr ((halive hs).resolve_left fun h => h hpending)
  cases h with
  | startProcess _ _ _ => exact Or.inr (Or.inl (List.cons_ne_nil _ _))
  | completeServiceTask _ hw hwaiting h =>
    exact Or.inr (h.leaves hP hw hwaiting (hgoes _ hw rfl))
  | completeUserTask _ _ hw hwaiting h =>
    exact Or.inr (h.leaves hP hw hwaiting (hgoes _ hw rfl))
  | failCaught _ hw _ hb => exact Or.inr (.onFlows (hgoes _ hw rfl _ hb))
  | failUncaught _ hw hwaiting _ => exact Or.inr (.waiting hw hwaiting)
  | fireInterrupting hw _ htype he _ =>
    have hexits := hgoes _ hw rfl
    rw [if_pos htype, ProcessDefinition.exits_of_getElement he] at hexits
    exact Or.inr (.onFlows hexits)
  | fireBoundary hw _ htype he _ =>
    have hexits := hgoes _ hw rfl
    rw [if_pos htype, ProcessDefinition.exits_of_getElement he] at hexits
    exact Or.inr (.onFlows hexits)
  | fireCatch hw hwaiting htype h =>
    have hcomplete := hgoes _ hw rfl
    rw [if_neg htype] at hcomplete
    exact Or.inr (h.leaves (hP.clearSiblings _) (mem_clearSiblings_self hw) hwaiting hcomplete)
  | suspendInstance hs =>
    obtain h | ⟨x, hx, hw⟩ := hrest (Or.inl hs)
    · exact Or.inr h
    · exact Or.inr (.waiting hx hw)
  | resumeInstance hs =>
    obtain h | ⟨x, hx, hw⟩ := hrest (Or.inr hs)
    · exact Or.inr h
    · exact Or.inr (.waiting hx hw)
  | cancelInstance => exact Or.inl rfl

/-! ## Every step leaves work -/

theorem Pool.Alive.of_status {s : InstanceStatus} (h : P.status = some s)
    (hs : s ≠ .active ∧ s ≠ .suspended) : P.Alive := by
  intro hlive
  simp only [h, Option.some.injEq] at hlive
  exact absurd hlive (not_or.2 hs)

theorem Turned.alive {t : Token} (hP : P.Coherent [t]) (h : Turned d P t P')
    (hgoes : (∃ x ∈ P.tokens, x.status = .waiting ∧ ¬ P.TouchesTurn d t x) ∨ P.pending ≠ [] ∨
      ∀ e, d.getElement t.elementId = .ok e → P.TurnGoesOn d t e) : P'.Alive := by
  rcases hgoes with ⟨x, hx, hw, hnot⟩ | hpending | hgoes
  · exact fun _ => Or.inr ⟨x, h.stays hx hnot, hw⟩
  · obtain ⟨Q, origins, hturn, hmade⟩ := h
    have hframe := hturn.frame hP.nodup (hP.holds List.mem_cons_self)
    refine fun _ => Leaves.hasWork (Or.inr (Or.inl ?_)) hmade
    rwa [hframe.pending]
  · obtain ⟨Q, origins, hturn, hmade⟩ := h
    rcases hturn.leaves hP hgoes with hs | hleaves
    · exact .of_status (hmade.status.trans hs) (by decide)
    · exact fun _ => hleaves.hasWork hmade

theorem Resumes.alive {targets : List Token} (hP : P.Coherent []) (hpending : P.pending = [])
    (halive : P.Alive) (hleft : TargetsLeft [] targets P) (hgoes : TargetsGoOn d targets)
    (h : Resumes d targets P P') : P'.Alive := by
  rcases hgoes with rfl | hne
  · cases h
    exact halive
  · obtain ⟨news, hnews, -, hmade⟩ := h.news hP hleft
    refine fun _ => Or.inl ?_
    rw [hnews, hpending, List.nil_append]
    rintro rfl
    exact hne (by simpa using hmade)

theorem Commanded.alive {command : EngineCommand} (hP : P.Coherent []) (hpending : P.pending = [])
    (halive : P.Alive) (h : Commanded d P command P')
    (hgoes : (∃ x ∈ P.tokens, x.status = .waiting ∧ ¬ P.TouchesCommand d x command) ∨
      P.CommandGoesOn d command) : P'.Alive := by
  rcases hgoes with ⟨x, hx, hw, hnot⟩ | hgoes
  · exact fun _ => Or.inr ⟨x, h.stays hx hnot, hw⟩
  · cases h with
    | deed h hmade =>
      rcases h.leaves hP hpending halive hgoes with hs | hleaves
      · exact .of_status (hmade.status.trans hs) (by decide)
      · exact fun _ => hleaves.hasWork hmade
    | deliverMessage name _ h =>
      exact h.alive hP hpending halive
        (.of_filter hP.nodup fun x hx => by simp [Token.awaitsMessage] at hx; exact hx.1) hgoes
    | broadcastSignal name _ h =>
      exact h.alive hP hpending halive
        (.of_filter hP.nodup fun x hx => by simp [Token.awaitsSignal] at hx; exact hx.1) hgoes

/-- In a run in which every step goes on, no instance is dead. -/
theorem alive_of_goesOn {steps : List Step} {state : EngineState} {nextId : Nat}
    (run : Run d steps state nextId) (hgoes : ∀ st ∈ steps, st.GoesOn d) : state.Alive := by
  obtain ⟨ctx, inst, htrace, hqueue, hinst, rfl, -⟩ := run.trace
  have halive : ctx.pool.Alive := by
    refine htrace.maintains (C := Step.GoesOn d) ?_ ?_ ?_ ?_ hgoes
    · intro n hs
      rcases hs with hs | hs
      · cases hs
      · cases hs
    · exact fun P n _ _ _ hI => hI
    · intro before command after hst hcoh hpending hI hcmd
      exact hcmd.alive hcoh hpending hI
        (hst.imp_right fun h => h.resolve_left fun hne => hne hpending)
    · rintro before t after hst hcoh - hturned
      refine hturned.alive hcoh (hst.imp_right (Or.imp_right fun hway e he => ?_))
      unfold Step.FindsWay at hway
      simpa only [show d.getElement t.elementId = .ok e from he] using hway
  intro hstatus
  have hpool : ctx.pool.status = some inst.status := by simp [pool, hinst]
  rcases halive (by rw [hpool]; exact hstatus.imp (congrArg some) (congrArg some))
    with hpending | ⟨x, hx, hw⟩
  · simp [pool, hqueue] at hpending
  · obtain ⟨t, ht, rfl⟩ := List.mem_map.1 hx
    exact ⟨t, ht, hw⟩

/-! ## A task with and without an outgoing flow -/

namespace Diagram

/-- A user task behind the start event, and an end event; the flow between the two may be
missing. -/
def oneTask (leaving : List SequenceFlow) : ProcessDefinition :=
  let flows := .between "toTask" "start" "task" :: leaving
  definition flows [start flows "start", userTask flows "task", finish flows "end" .none]

end Diagram

open Diagram

/-- The task waits for the user. -/
theorem alive_oneTask : ∃ r : Replay,
    Run (oneTask [.between "toEnd" "task" "end"]) r.steps r.state r.nextId ∧
    r.state.inst.status = .active ∧ r.state.Alive := by
  obtain ⟨r, hrun, htest⟩ :=
    exists_run_of_replay (oneTask [.between "toEnd" "task" "end"]) always 10
    none [] (fun r => r.state.inst.status = .active ∧
      ∀ st ∈ r.steps, st.GoesOn (oneTask [.between "toEnd" "task" "end"])) (by decide +kernel)
  obtain ⟨hstatus, hgoes⟩ := of_decide_eq_true htest
  exact ⟨r, hrun, hstatus, alive_of_goesOn hrun hgoes⟩

/-- The task has no outgoing flow: when it is completed, the instance stays active, and nothing
waits. -/
theorem not_alive_oneTask : (oneTask []).isDeployable = true ∧ ∃ r : Replay,
    Run (oneTask []) r.steps r.state r.nextId ∧ r.state.inst.status = .active ∧
      ¬ r.state.Alive := by
  refine ⟨by decide +kernel, ?_⟩
  obtain ⟨r, hrun, htest⟩ := exists_run_of_replay (oneTask []) always 10 none
    [.completeUserTask 3 "" none] (fun r => r.state.inst.status = .active ∧
      ∀ t ∈ r.state.tokens, t.status ≠ .waiting) (by decide +kernel)
  obtain ⟨hstatus, hnone⟩ := of_decide_eq_true htest
  refine ⟨r, hrun, hstatus, fun halive => ?_⟩
  obtain ⟨t, ht, hw⟩ := halive (Or.inl hstatus)
  exact hnone t ht hw

end NexusWorkflow
