import NexusWorkflow.Game.Coherence

/-!
# What a step touches

For every rule the tokens that it may change, read off the pool before it: `P.Touches…`.  A token
that a rule does not touch stays as it is.
-/

namespace NexusWorkflow

/-- The cancel boundary event of a transaction. -/
def ProcessDefinition.cancelBoundary (d : ProcessDefinition) (s : String) :
    Option BoundaryEventElement :=
  (d.findBoundariesFor s).find? (·.eventDefinition.type = .cancel)

namespace Pool

variable (d : ProcessDefinition) (P : Pool)

/-- The token waits at a boundary event of the activity. -/
def Guards (elementId : String) (x : Token) : Prop :=
  x.elementType = .boundaryEvent ∧ x.hostTaskId = some elementId

instance (elementId : String) (x : Token) : Decidable (Guards elementId x) :=
  inferInstanceAs (Decidable (_ ∧ _))

instance (s : String) : Decidable (P.Busy s) :=
  inferInstanceAs (Decidable (∃ t ∈ P.tokens, _))

instance (parent : Nat) : Decidable (P.ChildrenFinished parent) :=
  inferInstanceAs (Decidable (∀ t ∈ P.tokens, _))

/-- `checkSubProcessCompletion` completes the token outside. -/
def TouchesSubEnd (s : String) (x : Token) : Prop :=
  ¬ P.Busy s ∧ ∃ outer ∈ P.waitingAt s, x.id = outer.id

instance (s : String) (x : Token) : Decidable (P.TouchesSubEnd s x) :=
  inferInstanceAs (Decidable (_ ∧ _))

/-- `fireCancelBoundary` completes the boundary token and cancels the one outside. -/
def TouchesFireCancel (s : String) (outer x : Token) : Prop :=
  ∃ b ∈ d.cancelBoundary s, ∃ w ∈ P.waitingAt b.id, x.id = w.id ∨ x.id = outer.id

instance (s : String) (outer x : Token) : Decidable (P.TouchesFireCancel d s outer x) := by
  unfold TouchesFireCancel
  infer_instance

/-- `handleTransactionCancel` cancels what is live inside; without compensation it also fires the
cancel boundary event. -/
def TouchesTxCancel (s : String) (t x : Token) : Prop :=
  (x.id ≠ t.id ∧ x.subProcessInstanceId = some s ∧ x.live) ∨
    (P.records = [] ∧ ∃ outer ∈ (P.clearScope s t).waitingAt s,
      (P.clearScope s t).TouchesFireCancel d s outer x)

instance (s : String) (t x : Token) : Decidable (P.TouchesTxCancel d s t x) := by
  unfold TouchesTxCancel
  infer_instance

/-- `handleEndEvent`, when the token has been completed. -/
def TouchesEnds (t : Token) (e : EventElement) (x : Token) : Prop :=
  match e.eventDefinition.type with
  | .cancel => ∃ s ∈ truthy t.subProcessInstanceId, P.TouchesTxCancel d s t x
  | .terminate => x.id ≠ t.id ∧ x.live
  | _ => ∃ s ∈ truthy t.subProcessInstanceId, P.TouchesSubEnd s x

instance (t : Token) (e : EventElement) (x : Token) : Decidable (P.TouchesEnds d t e x) := by
  unfold TouchesEnds
  split <;> infer_instance

/-- The completion of the child may close the loop. -/
def MayClose (c p : Token) (lc : MultiInstanceLoopCharacteristics) : Prop :=
  lc.isSequential = true ∨ truthy lc.completionCondition ≠ none ∨
    (P.finish c).ChildrenFinished p.id

instance (c p : Token) (lc : MultiInstanceLoopCharacteristics) : Decidable (P.MayClose c p lc) :=
  inferInstanceAs (Decidable (_ ∨ _))

/-- `handleMultiInstanceChildCompletion` completes the child.  Where the loop may close, it changes
the parent, the boundary tokens of the activity and, under a completion condition, the other
children. -/
def TouchesChild (c : Token) (elementId : String) (lc : MultiInstanceLoopCharacteristics)
    (x : Token) : Prop :=
  x.id = c.id ∨ ∃ p ∈ c.parentTokenId.bind P.get?, P.MayClose c p lc ∧
    (x.id = p.id ∨ Guards elementId x ∨
      truthy lc.completionCondition ≠ none ∧ x.parentTokenId = some p.id)

instance (c : Token) (elementId : String) (lc : MultiInstanceLoopCharacteristics) (x : Token) :
    Decidable (P.TouchesChild c elementId lc x) := by
  unfold TouchesChild
  infer_instance

/-- `handleCompensationHandlerCompletion` completes the handler.  When it is the last one, the throw
event is completed, or the cancel boundary event fires. -/
def TouchesHandler (h throwToken x : Token) : Prop :=
  x.id = h.id ∨ (P.finish h).ChildrenFinished throwToken.id ∧
    (x.id = throwToken.id ∨ ∃ s ∈ truthy throwToken.subProcessInstanceId,
      ∃ outer ∈ (P.finish h).waitingAt s, (P.finish h).TouchesFireCancel d s outer x)

instance (h throwToken x : Token) : Decidable (P.TouchesHandler d h throwToken x) := by
  unfold TouchesHandler
  infer_instance

/-- `processToken`. -/
def TouchesTurn (t x : Token) : Prop :=
  x.id = t.id ∨
    match d.getElement t.elementId with
    | .ok (.endEvent e) => (P.finish t).TouchesEnds d t e x
    | .ok (.manualTask e) => ∃ lc ∈ e.loopCharacteristics, P.TouchesChild t e.id lc x
    | _ => False

instance (t x : Token) : Decidable (P.TouchesTurn d t x) := by
  unfold TouchesTurn
  split <;> infer_instance

/-- The token that `fireCancelBoundary` completes. -/
def firedAt (s : String) : Option Token := (d.cancelBoundary s).bind fun b => P.waitingAt b.id

/-- The token that `handleTransactionCancel` completes. -/
def firedByCancel (s : String) (t : Token) : Option Token :=
  if P.records.isEmpty ∧ ((P.clearScope s t).waitingAt s).isSome then (P.clearScope s t).firedAt d s
  else none

/-- The token at a cancel boundary event that `processToken` completes. -/
def firedInTurn (t : Token) : Option Token :=
  match d.getElement t.elementId, truthy t.subProcessInstanceId with
  | .ok (.endEvent e), some s =>
      if e.eventDefinition.type = .cancel then (P.finish t).firedByCancel d s t else none
  | _, _ => none

/-- `handleCompleteTask`. -/
def TouchesComplete (w x : Token) : Prop :=
  match d.getElement w.elementId with
  | .error _ => False
  | .ok e =>
      match P.role w e with
      | .child lc => P.TouchesChild w e.id lc x
      | .handler throwToken => P.TouchesHandler d w throwToken x
      | .plain => x.id = w.id ∨ Guards w.elementId x

instance (w x : Token) : Decidable (P.TouchesComplete d w x) := by
  unfold TouchesComplete
  split
  · infer_instance
  · split <;> infer_instance

/-- `cancelEbgSiblings`. -/
def TouchesSiblings (w x : Token) : Prop :=
  x.id ≠ w.id ∧ w.parentTokenId ≠ none ∧ x.parentTokenId = w.parentTokenId

instance (w x : Token) : Decidable (TouchesSiblings w x) :=
  inferInstanceAs (Decidable (_ ∧ _))

/-- `handleFireTimer`. -/
def TouchesTimer (w x : Token) : Prop :=
  if w.elementType = .boundaryEvent then
    x.id = w.id ∨
      match d.getElement w.elementId with
      | .ok (.boundaryEvent b) => b.cancelActivity ∧
          (x.elementId = b.attachedToRef ∨ x.hostTaskId = some b.attachedToRef)
      | _ => False
  else TouchesSiblings w x ∨ (P.clearSiblings w).TouchesComplete d w x

instance (w x : Token) : Decidable (P.TouchesTimer d w x) := by
  unfold TouchesTimer
  split
  · split <;> infer_instance
  · infer_instance

/-- `handleFailServiceTask`. -/
def TouchesFail (w : Token) (code : String) (x : Token) : Prop :=
  d.findMatchingErrorBoundary w.elementId code ≠ none ∧
    (x.id = w.id ∨ x.elementId = w.elementId ∨ x.hostTaskId = some w.elementId)

instance (w : Token) (code : String) (x : Token) : Decidable (TouchesFail d w code x) :=
  inferInstanceAs (Decidable (_ ∧ _))

/-- A target of a message or a signal is resumed. -/
def TouchesResume (w x : Token) : Prop := x.id = w.id ∨ TouchesSiblings w x

instance (w x : Token) : Decidable (TouchesResume w x) := inferInstanceAs (Decidable (_ ∨ _))

/-- A command handler, up to its call of the run loop. -/
def TouchesCommand (x : Token) : EngineCommand → Prop
  | .completeServiceTask id _ | .completeUserTask id _ _ =>
      ∃ w ∈ P.tokens, w.id = id ∧ P.TouchesComplete d w x
  | .failServiceTask id code _ => ∃ w ∈ P.tokens, w.id = id ∧ TouchesFail d w code x
  | .fireTimer id => ∃ w ∈ P.tokens, w.id = id ∧ P.TouchesTimer d w x
  | .deliverMessage name _ => ∃ w ∈ P.tokens, w.awaitsMessage name ∧ TouchesResume w x
  | .broadcastSignal name _ => ∃ w ∈ P.tokens, w.awaitsSignal name ∧ TouchesResume w x
  | .cancelInstance => True
  | .startProcess _ _ _ | .suspendInstance | .resumeInstance => False

instance (x : Token) (command : EngineCommand) : Decidable (P.TouchesCommand d x command) := by
  unfold TouchesCommand
  rcases command with _ | _ | _ | _ | _ | _ | _ | _ | _ | _ <;> infer_instance

end Pool

/-! ## What is not touched stays -/

variable {d : ProcessDefinition} {P Q P' : Pool} {origins : List Origin} {x : Token}

open Pool

theorem Pool.mem_cancelOne_of_ne {t : Token} (hx : x ∈ P.tokens) (hid : x.id ≠ t.id) :
    x ∈ (P.cancelOne t).tokens :=
  mem_put_of_ne (t := { t with status := .cancelled }) hx hid

theorem Pool.mem_clearBoundaries {elementId : String} (hx : x ∈ P.tokens)
    (hnot : ¬ Guards elementId x) : x ∈ (P.clearBoundaries elementId).tokens := by
  apply mem_cancelAll_of_not hx
  rw [decide_eq_false_iff_not]
  exact fun h => hnot h.2

theorem Pool.mem_clearHost {attachedToRef : String} {firing : Option Nat} (hx : x ∈ P.tokens)
    (hnot : ¬ (x.elementId = attachedToRef ∨ x.hostTaskId = some attachedToRef)) :
    x ∈ (P.clearHost attachedToRef firing).tokens := by
  apply mem_cancelAll_of_not hx
  rw [decide_eq_false_iff_not]
  exact fun h => hnot h.2.2

theorem Pool.mem_clearSiblings {w : Token} (hx : x ∈ P.tokens) (hnot : ¬ TouchesSiblings w x) :
    x ∈ (P.clearSiblings w).tokens := by
  unfold clearSiblings
  cases hp : w.parentTokenId with
  | none => exact hx
  | some parent =>
    apply mem_cancelAll_of_not hx
    rw [decide_eq_false_iff_not]
    exact fun h => hnot ⟨h.1, by simp [hp], h.2.1.trans hp.symm⟩

theorem SubEnd.stays {s : String} (hx : x ∈ P.tokens) (hnot : ¬ P.TouchesSubEnd s x)
    (h : SubEnd d s P Q origins) : x ∈ Q.tokens := by
  cases h with
  | busy _ => exact hx
  | orphan _ _ => exact hx
  | complete hbusy houter _ =>
    exact mem_put_of_ne hx fun hid => hnot ⟨hbusy, _, houter, hid⟩

theorem FireCancel.stays {s : String} {outer : Token} (hx : x ∈ P.tokens)
    (hnot : ¬ P.TouchesFireCancel d s outer x) (h : FireCancel d s outer P Q origins) :
    x ∈ Q.tokens := by
  cases h with
  | none _ => exact hx
  | unarmed _ _ => exact hx
  | fire hb hw =>
    have hne : x.id ≠ outer.id := fun hid => hnot ⟨_, hb, _, hw, Or.inr hid⟩
    apply mem_cancelOne_of_ne _ hne
    exact mem_put_of_ne hx fun hid => hnot ⟨_, hb, _, hw, Or.inl hid⟩

theorem Pool.mem_clearScope {s : String} {t : Token} (hx : x ∈ P.tokens)
    (hnot : ¬ (x.id ≠ t.id ∧ x.subProcessInstanceId = some s ∧ x.live)) :
    x ∈ (P.clearScope s t).tokens :=
  mem_cancelAll_of_not hx (decide_eq_false hnot)

theorem TxCancel.stays {s : String} {t : Token} (hx : x ∈ P.tokens)
    (hnot : ¬ P.TouchesTxCancel d s t x) (h : TxCancel d s t P Q origins) : x ∈ Q.tokens := by
  have hclear : x ∈ (P.clearScope s t).tokens := mem_clearScope hx fun h => hnot (Or.inl h)
  cases h with
  | compensate _ => exact hclear
  | orphan _ _ => exact hclear
  | fire hrecords houter hfire =>
    exact hfire.stays hclear fun h => hnot (Or.inr ⟨hrecords, _, houter, h⟩)

theorem Ends.stays {t : Token} {e : EventElement} (hx : x ∈ P.tokens)
    (hnot : ¬ P.TouchesEnds d t e x) (h : Ends d t P e Q origins) : x ∈ Q.tokens := by
  cases h with
  | cancelTop _ _ => exact hx
  | cancel he htag h =>
    refine h.stays hx fun htouch => hnot ?_
    simp only [TouchesEnds, he]
    exact ⟨_, htag, htouch⟩
  | terminate he =>
    simp only [TouchesEnds, he] at hnot
    exact mem_cancelAll_of_not hx (decide_eq_false hnot)
  | inner hc ht htag h =>
    refine h.stays hx fun htouch => hnot ?_
    unfold TouchesEnds
    split
    · contradiction
    · contradiction
    · exact ⟨_, htag, htouch⟩
  | last _ _ _ _ _ => exact hx
  | more _ _ _ _ => exact hx

theorem ChildDone.stays {c : Token} {e : BpmnFlowElement} {lc : MultiInstanceLoopCharacteristics}
    (hx : x ∈ P.tokens) (hnot : ¬ P.TouchesChild c e.id lc x) (h : ChildDone c e lc P Q origins) :
    x ∈ Q.tokens := by
  have hchild : x ∈ (P.finish c).tokens := mem_put_of_ne hx fun hid => hnot (Or.inl hid)
  -- where the loop may close, the token is neither the parent nor one of those cancelled with it
  have hother : ∀ {p : Token}, c.parentTokenId.bind P.get? = some p → P.MayClose c p lc →
      x.id ≠ p.id ∧ ¬ Guards e.id x ∧
        ¬ (truthy lc.completionCondition ≠ none ∧ x.parentTokenId = some p.id) := by
    intro p hp hmay
    have h := fun h => hnot (Or.inr ⟨p, hp, hmay, h⟩)
    exact ⟨fun h1 => h (Or.inl h1), fun h1 => h (Or.inr (Or.inl h1)), fun h1 =>
      h (Or.inr (Or.inr h1))⟩
  have hclose : ∀ {S : Pool} {p : Token}, x ∈ S.tokens → x.id ≠ p.id → ¬ Guards e.id x →
      x ∈ (S.closeLoop p e.id).tokens := fun hS hid hguard =>
    mem_clearBoundaries (mem_put_of_ne hS hid) hguard
  cases h with
  | orphan _ => exact hx
  | noLoop _ _ _ => exact hchild
  | next hp hseq _ _ =>
    exact mem_put_of_ne hchild (hother hp (Or.inl hseq)).1
  | lastItem hp hseq _ =>
    obtain ⟨hid, hguard, -⟩ := hother hp (Or.inl hseq)
    exact hclose hchild hid hguard
  | condition hp _ hcond =>
    obtain ⟨hid, hguard, hparent⟩ := hother hp (Or.inr (Or.inl hcond))
    apply hclose _ hid hguard
    apply mem_cancelAll_of_not hchild
    rw [decide_eq_false_iff_not]
    exact fun h => hparent ⟨hcond, h.1⟩
  | allDone hp _ hall =>
    obtain ⟨hid, hguard, -⟩ := hother hp (Or.inr (Or.inr hall))
    exact hclose hchild hid hguard
  | wait _ _ _ => exact hchild

theorem HandlerDone.stays {w throwToken : Token} (hx : x ∈ P.tokens)
    (hnot : ¬ P.TouchesHandler d w throwToken x) (h : HandlerDone d w throwToken P Q origins) :
    x ∈ Q.tokens := by
  have hself : x ∈ (P.finish w).tokens := mem_put_of_ne hx fun hid => hnot (Or.inl hid)
  cases h with
  | wait _ => exact hself
  | orphan _ _ _ _ _ => exact hself
  | fire hall _ _ htag houter hfire =>
    exact hfire.stays hself fun h =>
      hnot (Or.inr ⟨hall, Or.inr ⟨_, htag, _, houter, h⟩⟩)
  | advance hall _ _ =>
    exact mem_put_of_ne hself fun hid => hnot (Or.inr ⟨hall, Or.inl hid⟩)

theorem Turn.stays {t : Token} (hx : x ∈ P.tokens) (hnot : ¬ P.TouchesTurn d t x)
    (h : Turn d P t Q origins) : x ∈ Q.tokens := by
  have hid : x.id ≠ t.id := fun hid => hnot (Or.inl hid)
  have hrest := fun h => hnot (Or.inr h)
  cases h with
  | pass _ _ _ => exact mem_put_of_ne hx hid
  | @park _ _ condition loopState _ _ _ =>
    exact mem_put_of_ne
      (t := { t with status := .waiting, waitingFor := some condition, loopState }) hx hid
  | branch _ _ _ => exact mem_put_of_ne hx hid
  | ends he h =>
    simp only [he] at hrest
    have hself : x ∈ (P.finish t).tokens := mem_put_of_ne hx hid
    exact h.stays hself hrest
  | child he hlc _ h =>
    simp only [he] at hrest
    exact h.stays hx fun htouch => hrest ⟨_, hlc, htouch⟩

theorem Complete.stays {w : Token} (hx : x ∈ P.tokens) (hnot : ¬ P.TouchesComplete d w x)
    (h : Complete d P w Q origins) : x ∈ Q.tokens := by
  have hresume : x ∈ P.autoResume.tokens := hx
  unfold TouchesComplete at hnot
  cases h with
  | child he hrole h =>
    simp only [he, hrole] at hnot
    exact ChildDone.stays hresume hnot h
  | handler he hrole h =>
    simp only [he, hrole] at hnot
    exact HandlerDone.stays hresume hnot h
  | plain he hrole _ =>
    simp only [he, hrole] at hnot
    exact mem_put_of_ne (mem_clearBoundaries hresume fun h => hnot (Or.inr h))
      fun hid => hnot (Or.inl hid)

theorem Resume.stays {w : Token} (hx : x ∈ P.tokens) (hnot : ¬ TouchesResume w x)
    (h : Resume d P w Q origins) : x ∈ Q.tokens := by
  obtain ⟨-⟩ := h
  exact mem_clearSiblings (mem_put_of_ne hx fun hid => hnot (Or.inl hid)) fun h => hnot (Or.inr h)

theorem Deed.stays {command : EngineCommand} (hx : x ∈ P.tokens)
    (hnot : ¬ P.TouchesCommand d x command) (h : Deed d P command Q origins) : x ∈ Q.tokens := by
  cases h with
  | startProcess _ _ _ => exact hx
  | completeServiceTask _ hw _ h => exact h.stays hx fun htouch => hnot ⟨_, hw, rfl, htouch⟩
  | completeUserTask _ _ hw _ h => exact h.stays hx fun htouch => hnot ⟨_, hw, rfl, htouch⟩
  | @failCaught code _ w hw _ b hb =>
    have hfail : ¬ TouchesFail d w code x := fun h => hnot ⟨w, hw, rfl, h⟩
    have hnone : d.findMatchingErrorBoundary w.elementId code ≠ none := by simp [hb]
    have hself : x.id ≠ w.id := fun hid => hfail ⟨hnone, Or.inl hid⟩
    exact mem_clearHost (mem_cancelOne_of_ne hx hself) fun h => hfail ⟨hnone, Or.inr h⟩
  | failUncaught _ _ _ _ => exact hx
  | @fireInterrupting w hw _ htype b he hb =>
    have htimer : ¬ P.TouchesTimer d w x := fun h => hnot ⟨w, hw, rfl, h⟩
    simp only [TouchesTimer, if_pos htype, he] at htimer
    exact mem_clearHost (mem_put_of_ne hx fun hid => htimer (Or.inl hid))
      fun h => htimer (Or.inr ⟨hb, h⟩)
  | @fireBoundary w hw _ htype _ he hb =>
    have htimer : ¬ P.TouchesTimer d w x := fun h => hnot ⟨w, hw, rfl, h⟩
    simp only [TouchesTimer, if_pos htype] at htimer
    exact mem_put_of_ne hx fun hid => htimer (Or.inl hid)
  | @fireCatch w hw _ htype _ _ h =>
    have htimer : ¬ P.TouchesTimer d w x := fun h => hnot ⟨w, hw, rfl, h⟩
    simp only [TouchesTimer, if_neg htype] at htimer
    exact h.stays (mem_clearSiblings hx fun h => htimer (Or.inl h)) fun h => htimer (Or.inr h)
  | suspendInstance _ => exact hx
  | resumeInstance _ => exact hx
  | cancelInstance => exact absurd trivial hnot

theorem Spawned.stays {α : Type} {R : α → Token → Prop} {items : List α} (hx : x ∈ P.tokens)
    (h : Spawned R items P P') : x ∈ P'.tokens := by
  obtain ⟨news, n, -, -, rfl⟩ := h
  exact List.mem_append_left _ hx

theorem Resumes.stays {targets : List Token} (hx : x ∈ P.tokens)
    (hnot : ∀ w ∈ targets, ¬ TouchesResume w x) (h : Resumes d targets P P') : x ∈ P'.tokens := by
  induction h with
  | nil _ => exact hx
  | skip _ _ _ ih => exact ih hx fun w hw => hnot w (List.mem_cons_of_mem _ hw)
  | resume _ _ hresume hmade _ ih =>
    apply ih _ fun w hw => hnot w (List.mem_cons_of_mem _ hw)
    exact hmade.stays (hresume.stays hx (hnot _ List.mem_cons_self))

theorem Commanded.stays {command : EngineCommand} (hx : x ∈ P.tokens)
    (hnot : ¬ P.TouchesCommand d x command) (h : Commanded d P command P') : x ∈ P'.tokens := by
  cases h with
  | deed h hmade => exact hmade.stays (h.stays hx hnot)
  | deliverMessage name _ h =>
    refine h.stays hx fun w hw htouch => hnot ?_
    obtain ⟨hw, hname⟩ := List.mem_filter.1 hw
    exact ⟨w, hw, hname, htouch⟩
  | broadcastSignal name _ h =>
    refine h.stays hx fun w hw htouch => hnot ?_
    obtain ⟨hw, hname⟩ := List.mem_filter.1 hw
    exact ⟨w, hw, hname, htouch⟩

/-! ## Which targets are resumed -/

/-- The flows on which a token leaves the element. -/
def ProcessDefinition.exits (d : ProcessDefinition) (elementId : String) : List String :=
  match d.getElement elementId with
  | .ok e => e.outgoingFlows
  | .error _ => []

theorem ProcessDefinition.exits_of_getElement {elementId : String} {e : BpmnFlowElement}
    (he : d.getElement elementId = .ok e) : d.exits elementId = e.outgoingFlows := by
  simp [ProcessDefinition.exits, he]

/-- The targets that are resumed, when those of `done` have been: all but the siblings of one
resumed before. -/
def resumed (done : List Token) : List Token → List Token
  | [] => []
  | w :: rest =>
      if ∃ u ∈ done, TouchesSiblings u w then resumed done rest else w :: resumed (w :: done) rest

/-- The new tokens of a message or a signal. -/
def resumedOrigins (d : ProcessDefinition) (done targets : List Token) : List Origin :=
  (resumed done targets).flatMap fun w => onFlows w (d.exits w.elementId)

/-- The targets left are as they were, apart from the siblings of those that have been resumed. -/
structure TargetsLeft (done targets : List Token) (P : Pool) : Prop where
  nodup : (targets.map (·.id)).Nodup
  waiting : ∀ v ∈ targets, v.status = .waiting
  stopped : ∀ v ∈ targets, (∃ u ∈ done, TouchesSiblings u v) →
    ∃ x ∈ P.tokens, x.id = v.id ∧ x.status ≠ .waiting
  left : ∀ v ∈ targets, (¬ ∃ u ∈ done, TouchesSiblings u v) → v ∈ P.tokens

theorem TargetsLeft.of_filter (hP : P.ids.Nodup) {p : Token → Bool}
    (hp : ∀ x, p x = true → x.status = .waiting) : TargetsLeft [] (P.tokens.filter p) P where
  nodup := hP.sublist (List.filter_sublist.map _)
  waiting v hv := hp v (List.mem_filter.1 hv).2
  stopped v _ h := by simp at h
  left v hv _ := (List.mem_filter.1 hv).1

/-- A target is resumed. -/
theorem TargetsLeft.resume {done rest : List Token} {w : Token}
    (h : TargetsLeft done (w :: rest) P) (hresume : Resume d P w Q origins)
    (hmade : Spawned (Made d) origins Q P') : TargetsLeft (w :: done) rest P' := by
  have hnd := List.nodup_cons.1 h.nodup
  have hne : ∀ v ∈ rest, v.id ≠ w.id := fun v hv hid =>
    hnd.1 (List.mem_map.2 ⟨v, hv, hid⟩)
  refine ⟨hnd.2, fun v hv => h.waiting v (List.mem_cons_of_mem _ hv), ?_, ?_⟩
  · rintro v hv ⟨u, hu, htouch⟩
    have hv' := List.mem_cons_of_mem w hv
    by_cases hdone : ∃ u ∈ done, TouchesSiblings u v
    · obtain ⟨x, hx, hid, hnot⟩ := h.stopped v hv' hdone
      have hxw : x ∈ (P.finish w).tokens := mem_put_of_ne hx (hid ▸ hne v hv)
      obtain ⟨-⟩ := hresume
      refine ⟨x, hmade.stays ?_, hid, hnot⟩
      -- only waiting tokens are cancelled with the siblings
      unfold clearSiblings
      cases w.parentTokenId with
      | none => exact hxw
      | some parent =>
        apply mem_cancelAll_of_not hxw
        rw [decide_eq_false_iff_not]
        exact fun hsel => hnot hsel.2.2
    · have hw : TouchesSiblings w v := by
        rcases List.mem_cons.1 hu with rfl | hu
        · exact htouch
        · exact absurd ⟨u, hu, htouch⟩ hdone
      have hvw : v ∈ (P.finish w).tokens := mem_put_of_ne (h.left v hv' hdone) (hne v hv)
      obtain ⟨-⟩ := hresume
      refine ⟨{ v with status := .cancelled }, hmade.stays ?_, rfl, by simp⟩
      obtain ⟨-, hparent, hsame⟩ := hw
      unfold clearSiblings
      cases hp : w.parentTokenId with
      | none => exact absurd hp hparent
      | some parent =>
        refine List.mem_map.2 ⟨v, hvw, ?_⟩
        simp [kill, hne v hv, hsame.trans hp, h.waiting v hv']
  · intro v hv hnot
    have hleft := h.left v (List.mem_cons_of_mem _ hv) fun htouched =>
      hnot (htouched.imp fun u hu => ⟨List.mem_cons_of_mem _ hu.1, hu.2⟩)
    apply hmade.stays
    apply hresume.stays hleft
    rintro (hid | htouch)
    · exact hne v hv hid
    · exact hnot ⟨w, List.mem_cons_self, htouch⟩

/-- A message or a signal moves every target that is resumed onto all flows on which it leaves. -/
theorem Resumes.news {done targets : List Token} (hP : P.Coherent [])
    (hleft : TargetsLeft done targets P) (h : Resumes d targets P P') :
    ∃ news, P'.pending = P.pending ++ news ∧ P'.places = P.places ++ news.map Token.bare ∧
      List.Forall₂ (Made d) (resumedOrigins d done targets) news := by
  induction h generalizing done with
  | nil P => exact ⟨[], by simp, by simp, by simp [resumedOrigins, resumed]⟩
  | @skip w rest P P' x hx hwaiting _ ih =>
    have hstopped : ∃ u ∈ done, TouchesSiblings u w := by
      by_contra hnot
      obtain ⟨hmem, hid⟩ := get?_eq_some hx
      have hw := hleft.left w List.mem_cons_self hnot
      rw [eq_of_id hP.nodup hmem hw hid] at hwaiting
      exact hwaiting (hleft.waiting w List.mem_cons_self)
    have hrest : TargetsLeft done rest P :=
      ⟨(List.nodup_cons.1 hleft.nodup).2, fun v hv => hleft.waiting v (List.mem_cons_of_mem _ hv),
        fun v hv => hleft.stopped v (List.mem_cons_of_mem _ hv),
        fun v hv => hleft.left v (List.mem_cons_of_mem _ hv)⟩
    simpa only [resumedOrigins, resumed, if_pos hstopped] using ih hP hrest
  | @resume w rest P P' hw hwaiting Q mid origins hresume hmade _ ih =>
    have hgoes : ¬ ∃ u ∈ done, TouchesSiblings u w := by
      intro hstopped
      obtain ⟨x, hx, hid, hnot⟩ := hleft.stopped w List.mem_cons_self hstopped
      rw [eq_of_id hP.nodup hx hw hid] at hnot
      exact hnot hwaiting
    have hframe := hresume.frame hP.nodup (holds_of_mem hw)
    obtain ⟨more, hpending, hplaces, hmore⟩ :=
      ih ((hresume.ready hP hw hwaiting).spawned hmade) (hleft.resume hresume hmade)
    have hexits : origins = onFlows w (d.exits w.elementId) := by
      obtain ⟨he⟩ := hresume
      rw [ProcessDefinition.exits_of_getElement he]
    obtain ⟨news, n, hR, -, rfl⟩ := hmade
    refine ⟨news ++ more, ?_, ?_, ?_⟩
    · rw [hpending, ← List.append_assoc, ← hframe.pending]
      rfl
    · rw [hplaces, List.map_append, ← List.append_assoc, ← hframe.places]
      simp [places, spawn]
    · simp only [resumedOrigins, resumed, if_neg hgoes, List.flatMap_cons]
      rw [← hexits]
      exact List.rel_append hR hmore

end NexusWorkflow
